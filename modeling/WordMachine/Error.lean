import WordMachine.Word
import WordMachine.Token

/-!
# Failures

There are two families of failure.  A source error lies in the text of a program
and points at one of its tokens; a fault lies in a running machine and points at
its instruction pointer.  A run can also use up the steps it was granted.
-/

namespace WordMachine

/-- What keeps a source text from being a program. -/
inductive SourceError where
  | tokenCount (expected actual : Nat)
  | malformed (token : Token)
  /-- The instruction whose mnemonic has this index is cut off. -/
  | unexpectedEnd (index : Nat)
  | invalidRegister (token : Token)
  | invalidNumber (token : Token)
  | unknownLabel (index : Nat) (label : String)
  | duplicateLabel (label : String) (first second : Nat)
  | outOfMemory (required capacity : Nat)
  deriving DecidableEq, Repr

/-- What keeps a machine from completing the instruction at `ip`. -/
inductive Fault where
  | outOfBounds (ip address : Word)
  | illegalInstruction (ip opcode : Word)
  | illegalRegister (ip id : Word)
  deriving DecidableEq, Repr

inductive Error where
  | source (cause : SourceError)
  | fault (cause : Fault)
  | stepLimit (ip : Word) (limit : Nat)
  deriving DecidableEq, Repr

def SourceError.message : SourceError → String
  | .tokenCount expected actual =>
      s!"invalid token count: expected {expected.repr}, source has {actual.repr}"
  | .malformed token => s!"malformed token '{token.text}' at token {token.index.repr}"
  | .unexpectedEnd index =>
      s!"unexpected end of source in instruction at token {index.repr}"
  | .invalidRegister token => s!"invalid register '{token.text}' at token {token.index.repr}"
  | .invalidNumber token => s!"invalid number '{token.text}' at token {token.index.repr}"
  | .unknownLabel index label => s!"unknown label '{label}' at token {index.repr}"
  | .duplicateLabel label first second =>
      s!"label '{label}' declared twice (tokens {first.repr} and {second.repr})"
  | .outOfMemory required capacity =>
      s!"program too large: {required.repr} words (capacity {capacity.repr})"

def Fault.message : Fault → String
  | .outOfBounds ip address =>
      s!"memory access out of bounds: address {address.text} at ip {ip.text}"
  | .illegalInstruction ip opcode => s!"illegal instruction {opcode.text} at ip {ip.text}"
  | .illegalRegister ip id => s!"illegal register id {id.text} at ip {ip.text}"

def Error.message : Error → String
  | .source cause => cause.message
  | .fault cause => cause.message
  | .stepLimit ip limit => s!"step limit of {limit.repr} exceeded at ip {ip.text}"

end WordMachine
