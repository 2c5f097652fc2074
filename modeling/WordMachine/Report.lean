import WordMachine.Execution
import WordMachine.Listing
import WordMachine.Text.BoxTable

/-!
# Reports

A report is what a command prints together with the result that it ends in.  What
was printed before a failure stays printed.  Running a program reports its trace, if
that is asked for, and a summary; listing one reports its labels and instructions.
-/

namespace WordMachine

structure Report (Result : Type) where
  output : String
  result : Except Error Result

namespace Report

/-- A report of a text that is no program. -/
def refused {Result : Type} (cause : SourceError) : Report Result :=
  ⟨"", .error (.source cause)⟩

def traceText (events : List Event) : String :=
  String.join (events.map fun e => e.text ++ "\n")

/-- The lines at the end of a run. -/
def summaryText (steps : Nat) (eax : Word) : String :=
  s!"\n--- summary ---\ninstruction count: {steps.repr}\neax: {eax.text}\n"

/-- Runs a program and reports the traced events and the outcome. -/
def ofRun (source : String) (limits : Limits) (trace : Bool) : Report Word :=
  match Program.ofSource source limits with
  | .error cause => refused cause
  | .ok program =>
    let note (log : Array Event) (e : Event) := if trace then log.push e else log
    let run := (State.start program.machine).run note limits.stepLimit #[]
    let traced := traceText run.log.toList
    match run.result with
    | .error cause => ⟨traced, .error cause⟩
    | .ok eax => ⟨traced ++ summaryText run.state.steps eax, .ok eax⟩

def labelTable (table : SymbolTable) : Text.BoxTable where
  header := ["name", "ip", "token"]
  rows := table.labels.map fun l => [l.name, l.address.text, l.index.repr]

def listingTable (table : SymbolTable) (rows : List Row) : Text.BoxTable where
  header := ["addr", "label", "instruction", "words"]
  rows := rows.map fun row =>
    [row.address.text, table.cell row, row.ins.text, row.ins.wordsText]

/-- Reports the labels and the instructions of a program. -/
def ofListing (source : String) (limits : Limits) : Report Unit :=
  match Program.ofSource source limits with
  | .error cause => refused cause
  | .ok program =>
    match program.machine.listing with
    | .error fault => ⟨"", .error (.fault fault)⟩
    | .ok rows =>
      let labels := (labelTable program.labels).render
      let listing := (listingTable program.labels rows).render
      let length := program.machine.programLength.repr
      ⟨s!"--- labels ---\n{labels}\n\n--- program ({length} words) ---\n{listing}\n", .ok ()⟩

end Report

end WordMachine
