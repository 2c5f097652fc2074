import WordMachine.Execution
import WordMachine.Listing
import WordMachine.Report
import WordMachine.Text.BoxTable

/-!
# Debugger

A session shows the machine before each step: a window on the listing around the
instruction pointer and the registers.  When no steps are pending it asks for a
number of them.  A blank line asks for one, a line that is no number is passed over,
and where the typed text has ended every question is answered by one step.
-/

namespace WordMachine.Debugger

def windowHeight : Nat := 15

/-- The part of a listing around the row at `ip`, or its start if there is none. -/
def window (rows : List Row) (ip : Word) : List Row :=
  let current := (rows.findIdx? fun row => row.address == ip).getD 0
  (rows.drop (current - windowHeight / 2)).take windowHeight

/-- What has been typed.  If the text has not ended, more lines may follow. -/
structure Typed where
  lines : List (List Char)
  ended : Bool
  deriving DecidableEq, Repr

def Typed.ofText (text : String) : Typed := ⟨Text.lines text, true⟩

/-- The number of steps that a line asks for. -/
def stepsAsked (line : List Char) : Option Nat :=
  match Text.trim line with
  | [] => some 1
  | typed => (Word.ofTyped? (String.ofList typed)).map fun n => max n.toNat 1

/-- An answer to the question how far to go. -/
structure Answer where
  /-- How often the question was put. -/
  prompts : Nat
  /-- The number of steps, or none where the answer is yet to be typed. -/
  steps : Option Nat
  rest : List (List Char)
  deriving DecidableEq, Repr

/-- Asks until a line says how many steps to take. -/
def ask (ended : Bool) : List (List Char) → Answer
  | [] => ⟨1, if ended then some 1 else none, []⟩
  | line :: rest =>
    match stepsAsked line with
    | some steps => ⟨1, some steps, rest⟩
    | none =>
      let later := ask ended rest
      { later with prompts := later.prompts + 1 }

/-- The answer at a point where some steps may be pending. -/
def Typed.answer (typed : Typed) (pending : Nat) : Answer :=
  if pending = 0 then ask typed.ended typed.lines else ⟨0, some pending, typed.lines⟩

/-- The picture of a state before a step. -/
structure Frame where
  steps : Nat
  registers : RegisterFile
  zeroFlag : Bool
  halted : Bool
  rows : List Row
  deriving DecidableEq, Repr

/-- The picture of a state, with the window that its instruction pointer asks for. -/
def Frame.ofState (listing : List Row) (s : State) : Frame where
  steps := s.steps
  registers := s.machine.registers
  zeroFlag := s.machine.zeroFlag
  halted := s.halted
  rows := window listing s.machine.ip

def Frame.marks (frame : Frame) (row : Row) : Bool := row.address == frame.registers.eip

/-- One thing that a session shows. -/
inductive Shown where
  | frame (frame : Frame)
  | prompt
  | logged (e : Event)
  | summary (steps : Nat) (eax : Word)
  deriving DecidableEq, Repr

inductive Ending where
  | finished
  | failed (cause : Error)
  /-- The session waits for another line. -/
  | waiting
  deriving DecidableEq, Repr

structure Session where
  shown : List Shown
  ending : Ending
  deriving DecidableEq, Repr

/-- A session that has shown something before. -/
def Session.after (earlier : List Shown) (session : Session) : Session :=
  { session with shown := earlier ++ session.shown }

/-- The rest of a session that may take some more steps before it reaches the limit. -/
def sessionFor (rows : List Row) (limit : Nat) : Nat → State → Nat → Typed → Session
  | remaining, s, pending, typed =>
    if s.halted then
      ⟨[.summary s.steps s.machine.registers.eax], .finished⟩
    else
      let answer := typed.answer pending
      let asked :=
        .frame (Frame.ofState rows s) :: List.replicate answer.prompts .prompt
      match answer.steps, remaining with
      | none, _ => ⟨asked, .waiting⟩
      | some _, 0 => ⟨asked, .failed (s.outOfSteps limit)⟩
      | some steps, remaining + 1 =>
        let t := s.step
        let shown := asked ++ t.events.map .logged
        match t.fault with
        | some fault => ⟨shown, .failed (.fault fault)⟩
        | none =>
          (sessionFor rows limit remaining t.state (steps - 1)
            { typed with lines := answer.rest }).after shown

/-- The session of a program whose listing has the given rows. -/
def session (program : Program) (limits : Limits) (rows : List Row) (typed : Typed) : Session :=
  sessionFor rows limits.stepLimit limits.stepLimit (State.start program.machine) 0 typed

/-! ## What is shown, as text -/

/-- An address of at least four digits. -/
def addressText (address : Word) : String :=
  String.ofList ((Nat.toDigits 10 address.toNat).leftpad 4 '0')

def Frame.windowTable (labels : SymbolTable) (frame : Frame) : Text.BoxTable where
  header := ["eip", "addr", "label", "instruction", "words"]
  rows := frame.rows.map fun row =>
    [if frame.marks row then ">" else "", addressText row.address, labels.cell row,
      row.ins.text, row.ins.wordsText]

def Frame.registerTable (frame : Frame) : Text.BoxTable where
  header := Register.all.map Register.name ++ ["zf", "halted"]
  rows := [(Register.all.map fun r => (frame.registers.get r).text) ++
    [toString frame.zeroFlag, toString frame.halted]]

def summaryTable (steps : Nat) (eax : Word) : Text.BoxTable where
  header := ["ins_count", "eax"]
  rows := [[steps.repr, eax.text]]

def Shown.text (labels : SymbolTable) : Shown → String
  | frame shown =>
    let code := (shown.windowTable labels).render
    let registers := shown.registerTable.render
    s!"\n--- ins #{shown.steps.repr} ---\n{code}\n{registers}\n"
  | prompt => ">>> "
  | logged e => e.text ++ "\n"
  | summary steps eax =>
    let table := (summaryTable steps eax).render
    s!"\n--- summary ---\n{table}\n"

def Session.text (labels : SymbolTable) (session : Session) : String :=
  String.join (session.shown.map (Shown.text labels))

end Debugger

/-- Debugs a program with a text that is typed to its end.  A session that waits has
no failure of its own. -/
def Report.ofSession (source : String) (limits : Limits) (typed : String) : Report Unit :=
  match Program.ofSource source limits with
  | .error cause => refused cause
  | .ok program =>
    match program.machine.listing with
    | .error fault => ⟨"", .error (.fault fault)⟩
    | .ok rows =>
      let session := Debugger.session program limits rows (Debugger.Typed.ofText typed)
      let result := match session.ending with
        | .failed cause => .error cause
        | .finished | .waiting => .ok ()
      ⟨session.text program.labels, result⟩

end WordMachine
