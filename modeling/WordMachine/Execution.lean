import WordMachine.Event
import WordMachine.Instruction.OfMemory
import WordMachine.Program

/-!
# Execution

A step fetches the instruction at the instruction pointer and carries it out.  It
either takes the machine to a new state or meets a fault and leaves the machine
alone.  Unless the instruction jumps or exits, the instruction pointer moves to the
next instruction, and it does so last: an instruction that assigns to it has no say
in where execution goes on.  A run repeats the step until the machine halts, a step
faults or the granted steps are used up.
-/

namespace WordMachine

/-- What an instruction makes of a machine. -/
structure Effect where
  machine : Machine
  events : List Event := []
  halts : Bool := false
  fault : Option Fault := none
  deriving DecidableEq, Repr

namespace Machine

def fail (m : Machine) (fault : Fault) : Effect := { machine := m, fault := some fault }

def goOn (m : Machine) (next : Word) (events : List Event) : Effect :=
  { machine := m.jump next, events }

def assign (m : Machine) (next : Word) (r : Register) (w : Word) : Effect :=
  (m.set r w).goOn next [.assigned r w]

/-- The effect of assigning what `f` makes of the word in the cell `[ base + offset ]`. -/
def loadInto (m : Machine) (next : Word) (r base : Register) (offset : Word)
    (f : Word → Word) : Effect :=
  let address := m.cellAddress base offset
  match m.read address with
  | .error fault => m.fail fault
  | .ok value => (m.set r (f value)).goOn next [.read value address, .assigned r (f value)]

/-- The effect of storing a word in the cell `[ base + offset ]`. -/
def store (m : Machine) (next : Word) (base : Register) (offset w : Word) : Effect :=
  let address := m.cellAddress base offset
  match m.write address w with
  | .error fault => m.fail fault
  | .ok written => written.goOn next [.wrote w address]

/-- Carries out an instruction that stands at the instruction pointer. -/
def execute (m : Machine) (ins : Instruction Word) : Effect :=
  let next := m.ip + UInt64.ofNat ins.wordCount
  match ins with
  | .je target =>
      if m.zeroFlag then m.goOn target [.jumped target] else m.goOn next [.passed]
  | .jmp target => m.goOn target [.jumped target]
  | .cmp r value =>
      let equal := m.get r == value
      (m.setZeroFlag equal).goOn next [.compared r value equal]
  | .add r base offset => m.loadInto next r base offset (m.get r + ·)
  | .sub r amount => m.assign next r (m.get r - amount)
  | .storeRegister base offset r => m.store next base offset (m.get r)
  | .storeValue base offset value => m.store next base offset value
  | .load r base offset => m.loadInto next r base offset id
  | .copy r source => m.assign next r (m.get source)
  | .set r value => m.assign next r value
  | .inc r => m.assign next r (m.get r + 1)
  | .exit => { machine := m, events := [.exited], halts := true }

end Machine

/-- A machine in the course of a run. -/
structure State where
  machine : Machine
  halted : Bool := false
  /-- Instructions fetched so far, `exit` included. -/
  steps : Nat := 0
  deriving DecidableEq, Repr

/-- The result of one step.  Where there is a fault, the state still counts the
instruction if it was fetched. -/
structure Transition where
  state : State
  events : List Event
  fault : Option Fault
  deriving DecidableEq, Repr

/-- The end of a run: its last state, the log of its events and its result, which is
the word in `eax` if the machine halted. -/
structure Run (Log : Type) where
  state : State
  log : Log
  result : Except Error Word

namespace State

def start (machine : Machine) : State := { machine }

def step (s : State) : Transition :=
  if s.halted then
    ⟨s, [.refused], none⟩
  else
    match Instruction.ofMemory s.machine.memory s.machine.ip with
    | .error fault => ⟨s, [], some fault⟩
    | .ok ins =>
      let fetched := Event.fetched ins s.machine.ip
      let effect := s.machine.execute ins
      ⟨⟨effect.machine, effect.halts, s.steps + 1⟩, fetched :: effect.events, effect.fault⟩

def outOfSteps (s : State) (limit : Nat) : Error := .stepLimit s.machine.ip limit

/-- Runs for at most the given number of further steps.  Each event goes into the
log by `note`. -/
def runFor {Log : Type} (note : Log → Event → Log) (limit : Nat) :
    Nat → State → Log → Run Log
  | 0, s, log =>
    ⟨s, log, if s.halted then .ok s.machine.registers.eax else .error (s.outOfSteps limit)⟩
  | remaining + 1, s, log =>
    if s.halted then
      ⟨s, log, .ok s.machine.registers.eax⟩
    else
      let t := s.step
      let log := t.events.foldl note log
      match t.fault with
      | some fault => ⟨t.state, log, .error (.fault fault)⟩
      | none => runFor note limit remaining t.state log

/-- Runs until the step counter reaches the limit. -/
def run {Log : Type} (note : Log → Event → Log) (limit : Nat) (s : State) (log : Log) :
    Run Log :=
  runFor note limit (limit - s.steps) s log

def runSilently (limit : Nat) (s : State) : Run Unit :=
  s.run (fun _ _ => ()) limit ()

/-- A step of a halted machine changes nothing. -/
theorem step_of_halted {s : State} (h : s.halted = true) : s.step = ⟨s, [.refused], none⟩ := by
  simp [step, h]

/-- A successful step of a machine that has not halted counts as one. -/
theorem steps_step {s : State} (hrunning : s.halted = false) (hok : s.step.fault = none) :
    s.step.state.steps = s.steps + 1 := by
  unfold step at hok ⊢
  simp only [hrunning, Bool.false_eq_true, if_false] at hok ⊢
  split at hok
  · simp at hok
  · rfl

end State

/-- The word that a source text computes. -/
def Program.evaluate (source : String) (limits : Limits) : Except Error Word :=
  match Program.ofSource source limits with
  | .error cause => .error (.source cause)
  | .ok program => ((State.start program.machine).runSilently limits.stepLimit).result

end WordMachine
