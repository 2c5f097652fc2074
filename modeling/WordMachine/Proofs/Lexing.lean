import Mathlib
import WordMachine.Proofs.Words

/-!
# Lexing by positions

A lexer walks once over a source text and cuts it between the positions that it has reached.
A position stands between two characters and never inside one, whatever the characters are,
so the pieces are texts again.  They are the words of the source text.
-/

namespace WordMachine.Source

variable {source : String}

/-- The position behind the word that begins at a position: at a space or at the end. -/
def wordEnd (pos : source.Pos) : source.Pos :=
  if hend : pos = source.endPos then
    pos
  else if pos.get hend = ' ' then
    pos
  else
    wordEnd (pos.next hend)
termination_by pos

theorem le_wordEnd (pos : source.Pos) : pos ≤ wordEnd pos := by
  fun_induction wordEnd pos with
  | case1 | case2 => exact Std.le_refl _
  | case3 pos hend hspace ih => exact Std.le_trans (Std.le_of_lt String.Pos.lt_next) ih

def wordAt (pos : source.Pos) : String :=
  (source.slice pos (wordEnd pos) (le_wordEnd pos)).copy

/-- The tokens from a position on.  A space after a word is stepped over. -/
def lexFrom (start : source.Pos) (index : Nat) : List Token :=
  if hend : wordEnd start = source.endPos then
    [⟨wordAt start, index⟩]
  else
    ⟨wordAt start, index⟩ :: lexFrom ((wordEnd start).next hend) (index + 1)
termination_by start
decreasing_by
  exact Std.lt_of_le_of_lt (le_wordEnd start) String.Pos.lt_next

def lex (source : String) : List Token := lexFrom source.startPos 0

theorem wordEnd_of_end {pos : source.Pos} (hend : pos = source.endPos) : wordEnd pos = pos := by
  rw [wordEnd, dif_pos hend]

theorem wordEnd_of_space {pos : source.Pos} (hend : pos ≠ source.endPos)
    (hspace : pos.get hend = ' ') : wordEnd pos = pos := by
  rw [wordEnd, dif_neg hend, if_pos hspace]

theorem wordEnd_of_ne_space {pos : source.Pos} (hend : pos ≠ source.endPos)
    (hspace : pos.get hend ≠ ' ') : wordEnd pos = wordEnd (pos.next hend) := by
  rw [wordEnd, dif_neg hend, if_neg hspace]

/-- A word has no space inside, and it ends at a space or at the end of the text. -/
theorem exists_splits_wordEnd {pos : source.Pos} {before rest : String}
    (hpos : pos.Splits before rest) :
    ∃ word after : String, rest = word ++ after ∧ ' ' ∉ word.toList ∧
      (wordEnd pos).Splits (before ++ word) after ∧ ∀ hend, (wordEnd pos).get hend = ' ' := by
  induction pos using String.Pos.next_induction generalizing before rest with
  | endPos =>
      rw [wordEnd_of_end rfl]
      exact ⟨"", rest, by simp, by simp, by simpa using hpos, fun hend => absurd rfl hend⟩
  | next pos hend ih =>
      by_cases hspace : pos.get hend = ' '
      · rw [wordEnd_of_space hend hspace]
        exact ⟨"", rest, by simp, by simp, by simpa using hpos, fun _ => hspace⟩
      · obtain ⟨rest, rfl⟩ := hpos.exists_eq_singleton_append hend
        obtain ⟨word, after, rfl, hword, hsplits, hget⟩ := ih hpos.next
        rw [wordEnd_of_ne_space hend hspace]
        refine ⟨String.singleton (pos.get hend) ++ word, after, ?_, ?_, ?_, hget⟩
        · rw [String.append_assoc]
        · simpa using ⟨Ne.symm hspace, hword⟩
        · rwa [← String.append_assoc]

theorem wordAt_of_splits {pos : source.Pos} {before word after : String}
    (hpos : pos.Splits before (word ++ after))
    (hend : (wordEnd pos).Splits (before ++ word) after) : wordAt pos = word := by
  obtain ⟨_, hcopy⟩ := String.copy_slice_eq_iff_splits.mpr ⟨before, after, hpos, hend⟩
  exact hcopy

/-- From any position on the lexer finds the pieces between the spaces. -/
theorem lexFrom_of_splits {pos : source.Pos} {before rest : String}
    (hpos : pos.Splits before rest) (index : Nat) :
    lexFrom pos index =
      Token.numbered index ((rest.toList.splitOn ' ').map String.ofList) := by
  fun_induction lexFrom pos index generalizing before rest with
  | case1 pos index hend =>
      obtain ⟨word, after, rfl, hword, hsplits, -⟩ := exists_splits_wordEnd hpos
      obtain rfl : after = "" := hsplits.eq_endPos_iff.mp hend
      rw [wordAt_of_splits hpos hsplits, String.append_empty, List.splitOn_eq_singleton hword]
      simp [Token.numbered]
  | case2 pos index hend ih =>
      obtain ⟨word, after, rfl, hword, hsplits, hget⟩ := exists_splits_wordEnd hpos
      obtain ⟨rest, rfl⟩ := hsplits.exists_eq_singleton_append hend
      have hrest := ih hsplits.next
      rw [wordAt_of_splits hpos hsplits, hrest, hget hend, String.toList_append,
        String.toList_append, String.toList_singleton, List.singleton_append,
        List.splitOn_append_cons_self_of_not_mem hword]
      simp [Token.numbered]

/-- The lexer finds the words between single spaces. -/
theorem lex_eq_tokens (source : String) : lex source = tokens source := by
  rw [lex, lexFrom_of_splits source.splits_startPos, tokens_eq_numbered, text_tokens]

/-- A lexer that is told how many tokens there are fails unless it is told right. -/
theorem tokensExactly_eq_ok_iff {n : Nat} {stream : List Token} :
    tokensExactly source n = .ok stream ↔ n = tokenCount source ∧ stream = tokens source := by
  rw [tokensExactly]
  by_cases hn : tokenCount source = n
  · simp [hn, eq_comm]
  · simp [hn, Ne.symm hn]

/-- Cutting a source text into words and joining them are inverse to each other.  The words
hold no space and are numbered in order, any words without a space are found again, and a
lexer that walks over the text once cuts out the same ones.  A caller that expects a number
of words gets them for one number only. -/
theorem tokens_inverts_join (source : String) :
    (tokens source).length = tokenCount source ∧
    (∀ (i : Nat) (t : Token), (tokens source)[i]? = some t →
      t.index = i ∧ ' ' ∉ t.text.toList) ∧
    ofTokens (tokens source) = source ∧
    lex source = tokens source ∧
    (∀ stream : List Token, stream ≠ [] → (∀ t ∈ stream, ' ' ∉ t.text.toList) →
      tokens (ofTokens stream) = stream.mapIdx fun i t => ⟨t.text, i⟩) ∧
    ∀ (n : Nat) (stream : List Token),
      tokensExactly source n = .ok stream ↔ n = tokenCount source ∧ stream = tokens source := by
  refine ⟨length_tokens source, ?_, ofTokens_tokens source, lex_eq_tokens source, ?_,
    fun _ _ => tokensExactly_eq_ok_iff⟩
  · intro i t ht
    exact ⟨index_of_getElem? ht, space_notMem_text (List.mem_of_getElem? ht)⟩
  · intro stream hne hspace
    rw [tokens_ofTokens hne hspace, ← Token.mapIdx_eq_numbered]
    simp only [Nat.zero_add]

/-- Two spaces in a row enclose an empty word, also between characters of several bytes. -/
theorem tokens_inverts_join_wide :
    tokens "é  𝒫" = [⟨"é", 0⟩, ⟨"", 1⟩, ⟨"𝒫", 2⟩] := by
  have hjoin := (tokens_inverts_join "").2.2.2.2.1 [⟨"é", 5⟩, ⟨"", 0⟩, ⟨"𝒫", 5⟩] (by decide)
    (by decide)
  exact hjoin

end WordMachine.Source
