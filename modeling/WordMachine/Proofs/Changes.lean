import Mathlib
import WordMachine.Listing
import WordMachine.Proofs.Calls

/-!
# Changes

What a step changes in a machine, apart from the instruction pointer, it also reports.  So
the events of a step say which registers, cells and flags are different after it, and an
instruction brings about no other changes than those that it names.
-/

namespace WordMachine

/-- A change to the data of a machine. -/
inductive Change where
  | register (r : Register) (w : Word)
  | cell (address w : Word)
  | zeroFlag (flag : Bool)
  deriving DecidableEq, Repr

namespace Event

def change? : Event → Option Change
  | assigned r w => some (.register r w)
  | wrote w address => some (.cell address w)
  | compared _ _ equal => some (.zeroFlag equal)
  | _ => none

def changes (events : List Event) : List Change := events.filterMap change?

def row? : Event → Option Row
  | fetched ins address => some ⟨address, ins⟩
  | _ => none

def rows (events : List Event) : List Row := events.filterMap row?

theorem rows_append (front back : List Event) : rows (front ++ back) = rows front ++ rows back :=
  List.filterMap_append

theorem changes_append (front back : List Event) :
    changes (front ++ back) = changes front ++ changes back :=
  List.filterMap_append

theorem mem_changes_iff {events : List Event} {address w : Word} :
    .cell address w ∈ changes events ↔ .wrote w address ∈ events := by
  rw [changes, List.mem_filterMap]
  constructor
  · intro ⟨e, he, hchange⟩
    cases e <;> cases hchange
    exact he
  · intro h
    exact ⟨_, h, rfl⟩

end Event

namespace Instruction

variable {V : Type}

def destination? : Instruction V → Option Register
  | add r _ _ | sub r _ | load r _ _ | copy r _ | set r _ | inc r => some r
  | _ => none

end Instruction

namespace Machine

variable {m m' : Machine} {ins : Instruction Word} {c : Change} {fault : Fault}

def apply (m : Machine) : Change → Machine
  | .register r w => m.set r w
  | .cell address w => { m with memory := m.memory.write address w }
  | .zeroFlag flag => m.setZeroFlag flag

def applyAll (m : Machine) (changes : List Change) : Machine := changes.foldl apply m

theorem apply_jump (m : Machine) (a b : Word) (c : Change) :
    ((m.jump a).apply c).jump b = (m.apply c).jump b := by
  cases c with
  | register r w => cases r <;> rfl
  | cell address w => rfl
  | zeroFlag flag => rfl

/-- Where the instruction pointer stood before does not matter after a jump. -/
theorem applyAll_jump (m : Machine) (a b : Word) (changes : List Change) :
    ((m.jump a).applyAll changes).jump b = (m.applyAll changes).jump b := by
  induction changes generalizing m a with
  | nil => rfl
  | cons c rest ih =>
      calc ((m.jump a).applyAll (c :: rest)).jump b
          = ((((m.jump a).apply c).jump b).applyAll rest).jump b := (ih _ b).symm
        _ = (((m.apply c).jump b).applyAll rest).jump b := by rw [apply_jump]
        _ = (m.applyAll (c :: rest)).jump b := ih _ b

/-- Changes leave alone what none of them writes to. -/
theorem read?_applyAll {m : Machine} {changes : List Change} {address : Word}
    (h : ∀ w, .cell address w ∉ changes) :
    (m.applyAll changes).memory.read? address = m.memory.read? address := by
  induction changes generalizing m with
  | nil => rfl
  | cons c rest ih =>
      have hrest := ih (m := m.apply c) fun w hw => h w (List.mem_cons_of_mem _ hw)
      refine hrest.trans ?_
      cases c with
      | register r w => rfl
      | zeroFlag flag => rfl
      | cell a w =>
          have hne : address ≠ a := by
            rintro rfl
            exact h w List.mem_cons_self
          rw [apply, Memory.read?_write, if_neg fun hwritten => hne hwritten.1]

def storeAddress? (m : Machine) : Instruction Word → Option Word
  | .storeRegister base offset _ | .storeValue base offset _ => some (m.cellAddress base offset)
  | _ => none

/-- The address that an instruction jumps to, if it is a jump that is taken. -/
def jumpTarget? (m : Machine) : Instruction Word → Option Word
  | .jmp target => some target
  | .je target => if m.zeroFlag then some target else none
  | _ => none

def nextIp (m : Machine) (ins : Instruction Word) : Word :=
  (m.jumpTarget? ins).getD (m.ip + UInt64.ofNat ins.wordCount)

/-- Whether an instruction names what is changed. -/
def Allows (m : Machine) (ins : Instruction Word) : Change → Prop
  | .register r _ => ins.destination? = some r
  | .cell address _ => m.storeAddress? ins = some address
  | .zeroFlag _ => ins.opcode = .cmp

/-- What can come of an instruction. -/
inductive Outcome (m : Machine) (ins : Instruction Word) : Effect → Prop
  | failed (fault : Fault) : Outcome m ins (m.fail fault)
  | exited (hins : ins = .exit) :
      Outcome m ins { machine := m, events := [.exited], halts := true }
  | wentOn (hins : ins ≠ .exit) (events : List Event)
      (hrows : Event.rows events = []) (hallowed : ∀ c ∈ Event.changes events, m.Allows ins c) :
      Outcome m ins ((m.applyAll (Event.changes events)).goOn (m.nextIp ins) events)

/-- An instruction that reports no change only goes on. -/
theorem outcome_goOn {e : Event} {next : Word} (hins : ins ≠ .exit) (hrow : e.row? = none)
    (hchange : e.change? = none) (hnext : m.nextIp ins = next) :
    m.Outcome ins (m.goOn next [e]) := by
  have hchanges : Event.changes [e] = [] := by simp [Event.changes, hchange]
  have hgoes := Outcome.wentOn (m := m) hins [e] (by simp [Event.rows, hrow])
    (hchanges ▸ List.forall_mem_nil _)
  rwa [hchanges, hnext] at hgoes

theorem outcome_assign {r : Register} (w : Word) (hins : ins ≠ .exit)
    (hdestination : ins.destination? = some r) :
    m.Outcome ins (m.assign (m.nextIp ins) r w) := by
  apply Outcome.wentOn hins [.assigned r w] rfl
  simpa [Event.changes, Event.change?, Allows] using hdestination

theorem outcome_loadInto {r base : Register} {offset : Word} (f : Word → Word)
    (hins : ins ≠ .exit) (hdestination : ins.destination? = some r) :
    m.Outcome ins (m.loadInto (m.nextIp ins) r base offset f) := by
  rw [loadInto]
  cases m.read (m.cellAddress base offset) with
  | error fault => exact .failed fault
  | ok value =>
      apply Outcome.wentOn hins [.read value (m.cellAddress base offset), .assigned r (f value)] rfl
      simpa [Event.changes, Event.change?, Allows] using hdestination

theorem outcome_store {base : Register} {offset : Word} (w : Word) (hins : ins ≠ .exit)
    (haddress : m.storeAddress? ins = some (m.cellAddress base offset)) :
    m.Outcome ins (m.store (m.nextIp ins) base offset w) := by
  rw [store, write]
  split
  · next fault heq => exact .failed fault
  · next written heq =>
    split at heq
    · cases heq
      apply Outcome.wentOn hins [.wrote w (m.cellAddress base offset)] rfl
      simpa [Event.changes, Event.change?, Allows] using haddress
    · cases heq

/-- An instruction fails and changes nothing, exits, or goes on after changes that it
names. -/
theorem outcome_execute (m : Machine) (ins : Instruction Word) :
    m.Outcome ins (m.execute ins) := by
  cases ins with
  | je target =>
      cases hflag : m.zeroFlag with
      | true =>
          simp only [execute, hflag, if_true]
          exact outcome_goOn (by simp) rfl rfl (by simp [nextIp, jumpTarget?, hflag])
      | false =>
          simp only [execute, hflag, Bool.false_eq_true, if_false]
          exact outcome_goOn (by simp) rfl rfl (by simp [nextIp, jumpTarget?, hflag])
  | jmp target => exact outcome_goOn (by simp) rfl rfl rfl
  | cmp r v =>
      apply Outcome.wentOn (by simp) [.compared r v (m.get r == v)] rfl
      simp [Event.changes, Event.change?, Allows, Instruction.opcode]
  | sub r v | copy r source | set r v | inc r => exact outcome_assign _ (by simp) rfl
  | add r base offset | load r base offset => exact outcome_loadInto _ (by simp) rfl
  | storeRegister base offset r | storeValue base offset v =>
      exact outcome_store _ (by simp) rfl
  | exit => exact .exited rfl

/-- After an instruction the machine is different where the events say so, and in the
instruction pointer. -/
theorem Outcome.machine_eq {e : Effect} (h : m.Outcome ins e) :
    (m.applyAll (Event.changes e.events)).jump e.machine.ip = e.machine := by
  cases h with
  | failed fault => rfl
  | exited hins => rfl
  | wentOn hins events hrows hallowed =>
      change _ = (m.applyAll _).jump (m.nextIp ins)
      exact congrArg _ (ip_jump _ _)

/-- An instruction that fails reports nothing. -/
theorem Outcome.events_of_fault {e : Effect} (h : m.Outcome ins e) (hfault : e.fault ≠ none) :
    e.events = [] := by
  cases h with
  | failed fault => rfl
  | exited hins => exact absurd rfl hfault
  | wentOn hins events hrows hallowed => exact absurd rfl hfault

theorem Outcome.rows_eq {e : Effect} (h : m.Outcome ins e) : Event.rows e.events = [] := by
  cases h with
  | failed fault => rfl
  | exited hins => rfl
  | wentOn hins events hrows hallowed => exact hrows

end Machine

namespace State

variable {s t : State} {events : List Event}

/-- The events of a step account for all that is different after it. -/
theorem machine_next (s : State) :
    (s.machine.applyAll (Event.changes s.step.events)).jump s.next.machine.ip =
      s.next.machine := by
  cases hhalted : s.halted with
  | true =>
      rw [next, step_of_halted hhalted]
      rfl
  | false =>
      cases hfetch : Instruction.ofMemory s.machine.memory s.machine.ip with
      | error fault =>
          rw [next, step_of_fetch_error hhalted hfetch]
          rfl
      | ok ins =>
          rw [next, step_of_fetch hhalted hfetch]
          exact (Machine.outcome_execute s.machine ins).machine_eq

/-- A step that fetches an instruction reports one fetch. -/
theorem rows_step_of_fetch {ins : Instruction Word} (hrunning : s.halted = false)
    (hfetch : Instruction.ofMemory s.machine.memory s.machine.ip = .ok ins) :
    Event.rows s.step.events = [⟨s.machine.ip, ins⟩] := by
  rw [step_of_fetch hrunning hfetch]
  exact congrArg _ (Machine.outcome_execute s.machine ins).rows_eq

/-- A step counts if it fetches an instruction. -/
theorem steps_next (s : State) : s.next.steps = s.steps + (Event.rows s.step.events).length := by
  cases hhalted : s.halted with
  | true =>
      rw [next, step_of_halted hhalted]
      rfl
  | false =>
      cases hfetch : Instruction.ofMemory s.machine.memory s.machine.ip with
      | error fault =>
          rw [next, step_of_fetch_error hhalted hfetch]
          rfl
      | ok ins =>
          rw [rows_step_of_fetch hhalted hfetch, next, step_of_fetch hhalted hfetch]
          rfl

/-- The events of a number of steps account for all that is different after them. -/
theorem Reaches.machine_eq (h : s.Reaches events t) :
    (s.machine.applyAll (Event.changes events)).jump t.machine.ip = t.machine := by
  obtain ⟨n, rfl, rfl⟩ := h
  induction n generalizing s with
  | zero => rfl
  | succ n ih =>
      rw [Function.iterate_succ_apply, eventsFor_succ, Event.changes_append, Machine.applyAll,
        List.foldl_append]
      have hrest := ih (s := s.next)
      rw [← machine_next s, Machine.applyAll_jump] at hrest
      exact hrest

/-- A cell that no event writes to holds the same word afterwards. -/
theorem Reaches.read?_eq (h : s.Reaches events t) {address : Word}
    (hwrites : ∀ w, .wrote w address ∉ events) :
    t.machine.memory.read? address = s.machine.memory.read? address := by
  rw [← h.machine_eq]
  apply Machine.read?_applyAll
  intro w hw
  exact hwrites w (Event.mem_changes_iff.mp hw)

/-- The counter goes up once for each fetch. -/
theorem Reaches.steps_eq (h : s.Reaches events t) :
    t.steps = s.steps + (Event.rows events).length := by
  obtain ⟨n, rfl, rfl⟩ := h
  induction n generalizing s with
  | zero => rfl
  | succ n ih =>
      rw [Function.iterate_succ_apply, eventsFor_succ, Event.rows_append, List.length_append, ih,
        steps_next, Nat.add_assoc]

end State

end WordMachine
