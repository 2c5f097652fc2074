import WordMachine.Word

/-!
# The Fibonacci program

A program that leaves a Fibonacci number in `eax`.  It keeps three consecutive
numbers in memory next to the base pointer, and the counter `ecx`, which starts at
one, decides with the given bound how often they move on.
-/

namespace WordMachine.Fibonacci

/-- The lines of the program that counts up to a bound. -/
def lines (bound : Word) : List String :=
  ["sub esp , 4",
   "mov ebp , esp",
   "mov [ ebp + 2 ] , 0",
   "mov [ ebp + 3 ] , 1",
   "mov [ ebp + 4 ] , 1",
   "mov [ ebp + 1 ] , 1",
   "mov ecx , 1",
   ":loop",
   "cmp ecx , " ++ bound.text,
   "je .end",
   "mov eax , [ ebp + 3 ]",
   "add eax , [ ebp + 2 ]",
   "mov [ ebp + 4 ] , eax",
   "mov eax , [ ebp + 3 ]",
   "mov [ ebp + 2 ] , eax",
   "mov eax , [ ebp + 4 ]",
   "mov [ ebp + 3 ] , eax",
   "mov eax , [ ebp + 1 ]",
   "inc ecx",
   "jmp .loop",
   ":end",
   "mov eax , [ ebp + 4 ]",
   "exit"]

def source (bound : Word) : String := " ".intercalate (lines bound)

def defaultBound : Word := 6

end WordMachine.Fibonacci
