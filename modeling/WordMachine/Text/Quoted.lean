import WordMachine.Text.Unprintable

/-!
# Quoted text

A quoted text stands between double quotes and shows every character.  Quotes and
backslashes follow a backslash, the usual control characters have a letter, and
other characters that would not be seen are given by their code point.
-/

namespace WordMachine.Text

/-- A code point in lower-case hexadecimal, between braces. -/
def codePoint (c : Char) : List Char :=
  "\\u\x7b".toList ++ Nat.toDigits 16 c.toNat ++ ['\x7d']

def quoteChar (c : Char) : List Char :=
  if c = '\x00' then ['\\', '0']
  else if c = '\t' then ['\\', 't']
  else if c = '\r' then ['\\', 'r']
  else if c = '\n' then ['\\', 'n']
  else if c = '"' ∨ c = '\'' ∨ c = '\\' then ['\\', c]
  else if isUnprintable c then codePoint c
  else [c]

def quote (text : String) : String :=
  String.ofList ('"' :: text.toList.flatMap quoteChar ++ ['"'])

end WordMachine.Text
