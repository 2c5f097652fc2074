/-!
# Blank characters and lines

A blank is a character with the Unicode property White_Space.  Trimming removes
the blanks at both ends of a text and leaves those inside.
-/

namespace WordMachine.Text

/-- Unicode White_Space. -/
def isBlank (c : Char) : Bool :=
  let n := c.toNat
  (0x09 ≤ n && n ≤ 0x0D) || n == 0x20 || n == 0x85 || n == 0xA0 || n == 0x1680 ||
    (0x2000 ≤ n && n ≤ 0x200A) || n == 0x2028 || n == 0x2029 || n == 0x202F ||
    n == 0x205F || n == 0x3000

def trim (text : List Char) : List Char :=
  ((text.dropWhile isBlank).reverse.dropWhile isBlank).reverse

/-- The pieces between line feeds.  A text that ends in a line feed has an empty
last line. -/
def lines (text : String) : List (List Char) :=
  text.toList.splitOn '\n'

theorem trim_eq_self_of_ends {text : List Char}
    (hfirst : ∀ c ∈ text.head?, isBlank c = false)
    (hlast : ∀ c ∈ text.getLast?, isBlank c = false) : trim text = text := by
  have hdrop : ∀ {cs : List Char}, (∀ c ∈ cs.head?, isBlank c = false) →
      cs.dropWhile isBlank = cs := by
    intro cs hcs
    cases cs with
    | nil => rfl
    | cons c rest => simp [hcs c (by simp)]
  rw [trim, hdrop hfirst, hdrop (by simpa using hlast), List.reverse_reverse]

end WordMachine.Text
