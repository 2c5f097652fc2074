/-!
# Tokens

A token is one word of source text together with its position among the words of
the text.  The position stays with the token when the stream around it changes, so
a fault found late still points at the source.  A leading colon declares a label
and a leading full stop refers to one.
-/

namespace WordMachine

structure Token where
  text : String
  /-- The position of the token in the source it came from. -/
  index : Nat
  deriving DecidableEq, Repr

namespace Token

inductive Role where
  | declaration | reference | plain
  deriving DecidableEq, Repr

/-- What the first character of a token makes of it. -/
def role (t : Token) : Role :=
  match t.text.toList with
  | ':' :: _ => .declaration
  | '.' :: _ => .reference
  | _ => .plain

/-- The text after the sigil.  A sigil is one ASCII character and a label name is
not empty; a token that starts with any other character has no name. -/
def labelName? (t : Token) : Option String :=
  match t.text.toList with
  | sigil :: name => if sigil.toNat < 128 ∧ name ≠ [] then some (String.ofList name) else none
  | [] => none

end Token

end WordMachine
