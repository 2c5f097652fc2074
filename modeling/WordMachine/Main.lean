import WordMachine.CommandLine

/-!
# The program

Reads the files and the standard input that the command line asks for and prints
what it answers.  A debugging session on a file is interactive: lines are read one
by one, and after each of them the session is played up to the next question.
-/

namespace WordMachine.CommandLine

def readText (file : String) : IO (Except String String) := do
  try
    return .ok (← IO.FS.readFile file)
  catch
    | .noFileOrDirectory _ _ _ => return .error "No such file or directory (os error 2)"
    | failure => return .error (toString failure)

def finish (exit : Exit) : IO UInt32 := do
  IO.print exit.output
  (← IO.getStdout).flush
  IO.eprint exit.complaint
  return exit.code

/-- Plays a session with the lines typed so far and prints what is new in it. -/
partial def converse (program : Program) (limits : Limits) (rows : List Row)
    (activity : String) (lines : List (List Char)) (ended : Bool) (printed : Nat) :
    IO UInt32 := do
  let session := Debugger.session program limits rows ⟨lines, ended⟩
  let fresh : Debugger.Session := { session with shown := session.shown.drop printed }
  IO.print (fresh.text program.labels)
  (← IO.getStdout).flush
  match session.ending with
  | .finished => finish { code := 0 }
  | .failed cause => finish (.failed "" activity cause.message)
  | .waiting =>
    let line ← (← IO.getStdin).getLine
    if line.isEmpty then
      converse program limits rows activity lines true session.shown.length
    else
      converse program limits rows activity (lines ++ [line.toList]) ended session.shown.length

/-- Debugs a program text interactively. -/
def debugText (limits : Limits) (activity text : String) : IO UInt32 :=
  match Program.ofSource (Source.ofLines text) limits with
  | .error cause => finish (.failed "" activity cause.message)
  | .ok program =>
    match program.machine.listing with
    | .error fault => finish (.failed "" activity fault.message)
    | .ok rows => converse program limits rows activity [] false 0

def perform (args : List String) : IO UInt32 := do
  match request? args with
  | some (.command limits (.debug file)) =>
    if namesStandardInput file then
      finish (exit args (fun _ => .ok "") (← (← IO.getStdin).readToEnd))
    else
      match ← readText file with
      | .error cause => finish (.unreadable file cause)
      | .ok text => debugText limits (Command.activity (.debug file)) text
  | some (.command _ command) =>
    match command.file? with
    | none => finish (exit args (fun _ => .ok "") "")
    | some file =>
      if namesStandardInput file then
        finish (exit args (fun _ => .ok "") (← (← IO.getStdin).readToEnd))
      else
        let text ← readText file
        finish (exit args (fun _ => text) "")
  | _ => finish (exit args (fun _ => .ok "") "")

end WordMachine.CommandLine

def main (args : List String) : IO UInt32 :=
  WordMachine.CommandLine.perform args
