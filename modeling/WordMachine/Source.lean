import WordMachine.Error
import WordMachine.Text.Blank

/-!
# Source text

The words of a source text stand between single spaces, so two spaces in a row
enclose an empty word, and a text of `n` spaces has `n + 1` words.  A text laid out
in lines is first folded into that form: each line is trimmed, blank lines are
dropped and the others are joined by one space.
-/

namespace WordMachine.Source

/-- The tokens of a source text, numbered from zero. -/
def tokens (source : String) : List Token :=
  (source.toList.splitOn ' ').mapIdx fun index word => ⟨String.ofList word, index⟩

/-- The number of tokens, counted on the text alone. -/
def tokenCount (source : String) : Nat :=
  source.toList.count ' ' + 1

/-- The tokens, provided that there are as many as the caller expects. -/
def tokensExactly (source : String) (expected : Nat) : Except SourceError (List Token) :=
  if tokenCount source = expected then
    .ok (tokens source)
  else
    .error (.tokenCount expected (tokenCount source))

/-- The source text that a token stream spells. -/
def ofTokens (stream : List Token) : String :=
  " ".intercalate (stream.map Token.text)

/-- Folds lines into a text with single spaces between their contents. -/
def ofLines (text : String) : String :=
  " ".intercalate
    ((((Text.lines text).map Text.trim).filter (· ≠ [])).map String.ofList)

theorem text_tokens (source : String) :
    (tokens source).map Token.text = (source.toList.splitOn ' ').map String.ofList := by
  apply List.ext_getElem <;> simp [tokens]

/-- A source text is spelled by its own tokens. -/
theorem ofTokens_tokens (source : String) : ofTokens (tokens source) = source := by
  apply String.toList_injective
  rw [ofTokens, text_tokens, String.toList_intercalate, List.map_map]
  have hid : String.toList ∘ String.ofList = id := funext fun _ => String.toList_ofList
  rw [hid, List.map_id]
  exact List.intercalate_splitOn ' '

end WordMachine.Source
