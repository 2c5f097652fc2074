import WordMachine.Debugger
import WordMachine.Fibonacci
import WordMachine.Report
import WordMachine.Text.Quoted

/-!
# Command line

The arguments name a command, with the options for memory and steps before it.  A
command that works on a program takes it from a file or, for the file name `-`, from
standard input.  What a command prints and its exit code follow from the arguments,
the program text and what is typed.
-/

namespace WordMachine.CommandLine

inductive Command where
  | run (file : String) (trace : Bool)
  | debug (file : String)
  | list (file : String)
  | demo (bound : Word)
  deriving DecidableEq, Repr

/-- What the arguments ask for. -/
inductive Request where
  | help
  | version
  | command (limits : Limits) (command : Command)
  deriving DecidableEq, Repr

/-- The argument that stands for standard input. -/
def standardInput : String := "-"

/-- Whether a file name is the path `-`.  Slashes and full stops at the end of a path do
not change what it names. -/
def namesStandardInput (file : String) : Bool :=
  match file.toList.splitOn '/' with
  | first :: others => first == ['-'] && others.all fun part => part == [] || part == ['.']
  | [] => false

def valueOptions : List String := ["--ram-size", "--max-steps", "--n"]

/-- Splits an attached value, as in `--n=5`, off its option. -/
def detach (arg : String) : List String :=
  match arg.toList.splitOn '=' with
  | option :: first :: others =>
    if String.ofList option ∈ valueOptions then
      [String.ofList option, String.ofList (['='].intercalate (first :: others))]
    else
      [arg]
  | _ => [arg]

/-- Splits attached values as far as arguments are read as options. -/
def detachAll (args : List String) : List String :=
  (args.takeWhile (· ≠ "--")).flatMap detach ++ args.dropWhile (· ≠ "--")

/-- The first letter of a run of short flags such as `-hV`.  Flags take effect from left
to right, and each one there is ends the reading, so no later letter matters. -/
def shortFlag? (arg : String) : Option Char :=
  match arg.toList with
  | '-' :: flag :: _ => if flag = '-' then none else some flag
  | _ => none

def isHelp (arg : String) : Bool := arg == "--help" || shortFlag? arg == some 'h'

def isVersion (arg : String) : Bool := arg == "--version" || shortFlag? arg == some 'V'

def isOption (arg : String) : Bool := arg.toList.head? == some '-' && arg != standardInput

/-- The arguments of a command on a file.  The name is not empty and stands once, and
so does the trace option if the command has it. -/
def fileCommand (limits : Limits) (tracing : Bool) (command : String → Bool → Command) :
    Option String → Bool → List String → Option Request
  | some file, trace, [] => some (.command limits (command file trace))
  | none, _, [] => none
  | file, trace, arg :: rest =>
    if arg = "--trace" ∧ tracing ∧ !trace then
      fileCommand limits tracing command file true rest
    else if isHelp arg then
      some .help
    else if arg = "--" then
      match file, rest with
      | some name, [] => some (.command limits (command name trace))
      | none, [name] => if name = "" then none else some (.command limits (command name trace))
      | _, _ => none
    else if isOption arg ∨ arg = "" ∨ file.isSome then
      none
    else
      fileCommand limits tracing command (some arg) trace rest

def demoCommand (limits : Limits) : Option Word → List String → Option Request
  | bound, [] | bound, ["--"] =>
    some (.command limits (.demo (bound.getD Fibonacci.defaultBound)))
  | none, "--n" :: value :: rest => do
    let bound ← Word.ofTyped? value
    demoCommand limits (some bound) rest
  | _, arg :: _ => if isHelp arg then some .help else none

def commandNames : List String := ["run", "debug", "list", "demo", "help"]

def command (limits : Limits) (name : String) (args : List String) : Option Request :=
  match name with
  | "run" => fileCommand limits true .run none false args
  | "debug" => fileCommand limits false (fun file _ => .debug file) none false args
  | "list" => fileCommand limits false (fun file _ => .list file) none false args
  | "demo" => demoCommand limits none args
  | "help" => if args.length ≤ 1 ∧ args.all (· ∈ commandNames) then some .help else none
  | _ => none

/-- The options in front of the command, each given at most once. -/
def options (memory steps : Option Word) : List String → Option Request
  | "--ram-size" :: value :: rest => do
    if memory.isSome then none
    let size ← Word.ofTyped? value
    options (some size) steps rest
  | "--max-steps" :: value :: rest => do
    if steps.isSome then none
    let limit ← Word.ofTyped? value
    options memory (some limit) rest
  | arg :: rest =>
    if isHelp arg then
      some .help
    else if isVersion arg then
      some .version
    else
      let limits : Limits :=
        { memorySize := (memory.map UInt64.toNat).getD Machine.defaultSize
          maxSteps := steps.map UInt64.toNat }
      command limits arg rest
  | [] => none

/-- What the arguments ask for, or nothing if they are not understood. -/
def request? (args : List String) : Option Request :=
  options none none (detachAll args)

/-- What a program leaves behind when it ends. -/
structure Exit where
  code : UInt32
  output : String := ""
  complaint : String := ""
  deriving DecidableEq, Repr

def usage : String :=
  "\n".intercalate
    ["Usage: regvm [--ram-size <WORDS>] [--max-steps <STEPS>] <COMMAND>",
     "",
     "Commands:",
     "  run [--trace] <FILE>  Assemble and execute a program, printing eax at exit",
     "  debug <FILE>          Step through a program",
     "  list <FILE>           Print the label table and the assembled program",
     "  demo [--n <BOUND>]    Run the built-in Fibonacci program",
     ""]

def Exit.misused : Exit := { code := 2, complaint := usage }

def Exit.failed (output activity cause : String) : Exit where
  code := 1
  output := output
  complaint := s!"Error: {activity}\n\nCaused by:\n    {cause}\n"

def Exit.unreadable (file cause : String) : Exit :=
  .failed "" s!"failed to read {Text.quote file}" cause

def Exit.ofReport {Result : Type} (activity : String) (report : Report Result) : Exit :=
  match report.result with
  | .ok _ => { code := 0, output := report.output }
  | .error cause => .failed report.output activity cause.message

def Command.file? : Command → Option String
  | run file _ | debug file | list file => some file
  | demo _ => none

/-- What a command does on a file, as a failure names it. -/
def Command.activity : Command → String
  | run file _ => s!"failed to run {Text.quote file}"
  | debug file => s!"failed to debug {Text.quote file}"
  | list file => s!"failed to assemble {Text.quote file}"
  | demo _ => "demo failed"

/-- Carries out a command on a program text laid out in lines. -/
def Command.exit (limits : Limits) (text typed : String) (command : Command) : Exit :=
  let source := Source.ofLines text
  match command with
  | run _ trace => .ofReport command.activity (Report.ofRun source limits trace)
  | debug _ => .ofReport command.activity (Report.ofSession source limits typed)
  | list _ => .ofReport command.activity (Report.ofListing source limits)
  | demo bound =>
    .ofReport command.activity (Report.ofRun (Fibonacci.source bound) limits false)

/-- The whole program.  Reading a file gives its text or the reason why there is none. -/
def exit (args : List String) (readFile : String → Except String String)
    (typed : String) : Exit :=
  match request? args with
  | none => .misused
  | some .help => { code := 0, output := usage }
  | some .version => { code := 0, output := "regvm 0.1.0\n" }
  | some (.command limits command) =>
    match command.file? with
    | none => command.exit limits "" ""
    | some file =>
      if namesStandardInput file then
        command.exit limits typed ""
      else
        match readFile file with
        | .error cause => .unreadable file cause
        | .ok text => command.exit limits text typed

end WordMachine.CommandLine
