import WordMachine.Instruction.OfTokens

/-!
# Symbol tables

A label names the address of the instruction that follows its declaration.  One
pass over a token stream finds the addresses: a declaration takes no memory, an
instruction takes the words of its opcode, and its operands are skipped unread.
A second pass drops the declarations and writes each reference as the address it
stands for.
-/

namespace WordMachine

structure Label where
  name : String
  address : Word
  /-- The source position of the declaration. -/
  index : Nat
  deriving DecidableEq, Repr

/-- Labels in the order of their declarations. -/
structure SymbolTable where
  labels : List Label := []
  deriving DecidableEq, Repr

/-- The label name that a token spells behind its sigil. -/
def Token.labelName (t : Token) : Except SourceError String :=
  match t.labelName? with
  | some name => .ok name
  | none => .error (.malformed t)

namespace SymbolTable

def find? (table : SymbolTable) (name : String) : Option Label :=
  table.labels.find? fun l => l.name == name

def address? (table : SymbolTable) (name : String) : Option Word :=
  (table.find? name).map Label.address

/-- Adds a label whose name is new to the table. -/
def declare (table : SymbolTable) (l : Label) : Except SourceError SymbolTable :=
  match table.find? l.name with
  | some earlier => .error (.duplicateLabel l.name earlier.index l.index)
  | none => .ok ⟨table.labels ++ [l]⟩

/-- Adds the labels of a stream whose first instruction stands at the given address.
The result comes with the address after the last instruction. -/
def scan (table : SymbolTable) (address : Word) :
    List Token → Except SourceError (SymbolTable × Word)
  | [] => .ok (table, address)
  | t :: rest =>
    if t.role = .declaration then do
      let name ← t.labelName
      let table ← table.declare ⟨name, address, t.index⟩
      table.scan address rest
    else do
      let op ← Opcode.ofWindow ⟨t, rest⟩
      if rest.length + 1 < op.tokenCount then
        throw (.unexpectedEnd t.index)
      table.scan (address + UInt64.ofNat op.wordCount) (rest.drop (op.tokenCount - 1))
termination_by stream => stream.length

def ofTokens (stream : List Token) : Except SourceError SymbolTable :=
  (scan {} 0 stream).map Prod.fst

/-- Replaces a reference by the numeral of its address. -/
def resolveToken (table : SymbolTable) (t : Token) : Except SourceError Token := do
  let name ← t.labelName
  match table.address? name with
  | some address => .ok ⟨address.text, t.index⟩
  | none => .error (.unknownLabel t.index name)

/-- Drops declarations, replaces references and keeps all other tokens. -/
def resolve (table : SymbolTable) : List Token → Except SourceError (List Token)
  | [] => .ok []
  | t :: rest =>
    match t.role with
    | .declaration => table.resolve rest
    | .reference => return (← table.resolveToken t) :: (← table.resolve rest)
    | .plain => return t :: (← table.resolve rest)

/-- The names of the labels that stand for an address, in order of declaration. -/
def namesAt (table : SymbolTable) (address : Word) : List String :=
  (table.labels.filter fun l => l.address == address).map Label.name

end SymbolTable

end WordMachine
