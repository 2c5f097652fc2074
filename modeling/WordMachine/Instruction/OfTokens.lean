import WordMachine.Error
import WordMachine.Instruction

/-!
# Instructions in source text

An instruction is read from a window on a token stream: its mnemonic and the tokens
after it.  The opcode follows from the mnemonic and, for `mov`, from the shape of
the two operands; it says how many tokens belong to the instruction.  The operands
are then checked one by one, where a value is a decimal literal.
-/

namespace WordMachine

/-- The mnemonic of an instruction and the rest of the stream after it. -/
structure Window where
  mnemonic : Token
  following : List Token
  deriving DecidableEq, Repr

namespace Window

/-- The window that starts at a position of a stream. -/
def ofCursor (stream : List Token) (cursor : Nat) : Except SourceError Window :=
  match stream.drop cursor with
  | mnemonic :: following => .ok ⟨mnemonic, following⟩
  | [] => .error (.unexpectedEnd ((stream.getLast?.map Token.index).getD 0))

/-- The `n`th token after the mnemonic, counted from zero. -/
def operand (w : Window) (n : Nat) : Except SourceError Token :=
  match w.following[n]? with
  | some token => .ok token
  | none => .error (.unexpectedEnd w.mnemonic.index)

/-- Checks that a token is the given punctuation mark. -/
def expect (w : Window) (n : Nat) (mark : String) : Except SourceError Unit := do
  let token ← w.operand n
  if token.text = mark then .ok () else .error (.malformed token)

def register (w : Window) (n : Nat) : Except SourceError Register := do
  let token ← w.operand n
  match Register.ofName? token.text with
  | some r => .ok r
  | none => .error (.invalidRegister token)

def value (w : Window) (n : Nat) : Except SourceError Word := do
  let token ← w.operand n
  match Word.ofText? token.text with
  | some v => .ok v
  | none => .error (.invalidNumber token)

/-- The cell reference `[ base + offset ]` that starts at operand token `n`. -/
def cell (w : Window) (n : Nat) : Except SourceError (Register × Word) := do
  w.expect n "["
  let base ← w.register (n + 1)
  w.expect (n + 2) "+"
  let offset ← w.value (n + 3)
  w.expect (n + 4) "]"
  return (base, offset)

end Window

def Token.isRegister (t : Token) : Bool := (Register.ofName? t.text).isSome

namespace Opcode

/-- The opcode of a `mov`.  A bracket opens a store, whose source decides between
the two kinds; a register as destination leaves a load, a copy or a set. -/
def ofMove (w : Window) : Except SourceError Opcode := do
  let destination ← w.operand 0
  if destination.text = "[" then
    let source ← w.operand 6
    return if source.isRegister then .storeRegister else .storeValue
  else if destination.isRegister then
    let source ← w.operand 2
    return if source.isRegister then .copy else if source.text = "[" then .load else .set
  else
    throw (.malformed destination)

/-- The opcode of the instruction in a window.  Operands are not checked. -/
def ofWindow (w : Window) : Except SourceError Opcode :=
  match w.mnemonic.text with
  | "je" => .ok .je
  | "jmp" => .ok .jmp
  | "cmp" => .ok .cmp
  | "add" => .ok .add
  | "sub" => .ok .sub
  | "inc" => .ok .inc
  | "exit" => .ok .exit
  | "mov" => ofMove w
  | _ => .error (.malformed w.mnemonic)

/-- The opcode of the instruction at a position of a stream. -/
def ofCursor (stream : List Token) (cursor : Nat) : Except SourceError Opcode := do
  ofWindow (← Window.ofCursor stream cursor)

end Opcode

namespace Instruction

/-- The instruction in a window.  In the forms with a register, a comma and a plain
operand the comma is checked first. -/
def ofWindow (w : Window) : Except SourceError (Instruction Word) := do
  match ← Opcode.ofWindow w with
  | .je => return .je (← w.value 0)
  | .jmp => return .jmp (← w.value 0)
  | .cmp =>
      w.expect 1 ","
      return .cmp (← w.register 0) (← w.value 2)
  | .add =>
      let target ← w.register 0
      w.expect 1 ","
      let (base, offset) ← w.cell 2
      return .add target base offset
  | .sub =>
      w.expect 1 ","
      return .sub (← w.register 0) (← w.value 2)
  | .storeRegister =>
      let (base, offset) ← w.cell 0
      w.expect 5 ","
      return .storeRegister base offset (← w.register 6)
  | .storeValue =>
      let (base, offset) ← w.cell 0
      w.expect 5 ","
      return .storeValue base offset (← w.value 6)
  | .load =>
      let target ← w.register 0
      w.expect 1 ","
      let (base, offset) ← w.cell 2
      return .load target base offset
  | .copy =>
      w.expect 1 ","
      return .copy (← w.register 0) (← w.register 2)
  | .set =>
      w.expect 1 ","
      return .set (← w.register 0) (← w.value 2)
  | .inc => return .inc (← w.register 0)
  | .exit => return .exit

/-- The instruction at a position of a stream. -/
def ofCursor (stream : List Token) (cursor : Nat) : Except SourceError (Instruction Word) := do
  ofWindow (← Window.ofCursor stream cursor)

end Instruction

end WordMachine
