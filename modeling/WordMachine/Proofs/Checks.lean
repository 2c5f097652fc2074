import Mathlib
import WordMachine.Proofs.Except
import WordMachine.Proofs.Words

/-!
# Checked accesses

A checked computation looks at each index, slice and sum before it uses it, and where one is
out of range nothing comes of it, neither a value nor an error.  So it goes on reaching what
it asks for as long as it equals a computation without checks.  The lexer is the first case:
it cuts a source text at byte offsets.
-/

namespace WordMachine

/-- Computations with checks.  Nothing comes of one in which a check fails. -/
abbrev Checked (E : Type) : Type → Type := ExceptT E Option

namespace Checked

variable {E A B : Type}

/-- A computation that has nothing to check. -/
def of (x : Except E A) : Checked E A := ExceptT.mk (some x)

/-- A value that has to be there. -/
def there (x : Option A) : Checked E A := ExceptT.mk (x.map .ok)

def check (p : Prop) [Decidable p] : Checked E Unit := there (guard p)

/-- A check of what holds has no effect. -/
theorem check_bind {p : Prop} [Decidable p] (h : p) (x : Checked E A) :
    (check p >>= fun _ => x) = x := by
  rw [check, guard, if_pos h]
  exact pure_bind () fun _ => x

theorem of_bind (x : Except E A) (f : A → Except E B) :
    of (x >>= f) = of x >>= fun a => of (f a) := by
  cases x <;> rfl

/-- Steps that need no check may be taken one after the other. -/
theorem bind_eq_of {x : Checked E A} {f : A → Checked E B} {y : Except E A}
    {g : A → Except E B} (hx : x = of y) (hf : ∀ a, y = .ok a → f a = of (g a)) :
    x >>= f = of (y >>= g) := by
  subst hx
  cases y with
  | error cause => rfl
  | ok a => exact hf a rfl

end Checked

theorem guard_eq_some {p : Prop} [Decidable p] (h : p) : (guard p : Option Unit) = some () := by
  rw [guard, if_pos h]
  rfl

namespace Source

/-- The piece of a text between two byte offsets, if they are boundaries of characters. -/
def slice? (source : String) (start stop : Nat) : Option String := do
  let first ← source.pos? ⟨start⟩
  let last ← source.pos? ⟨stop⟩
  let piece ← source.slice? first last
  return piece.copy

/-- The tokens that are left where a word begins at the offset `start`, has come to the offset
`stop` and the given characters follow. -/
def cutFrom (source : String) (start stop index : Nat) : List Char → Option (List Token)
  | [] => do
    let word ← slice? source start stop
    return [⟨word, index⟩]
  | c :: rest => do
    guard (stop + c.utf8Size < Word.modulus)
    let next := stop + c.utf8Size
    if c = ' ' then
      let word ← slice? source start stop
      let tokens ← cutFrom source next next (index + 1) rest
      return ⟨word, index⟩ :: tokens
    else
      cutFrom source start next index rest

/-- The tokens that are cut from a source text at byte offsets. -/
def cut (source : String) : Option (List Token) := cutFrom source 0 0 0 source.toList

theorem pos?_offset {source : String} (pos : source.Pos) : source.pos? pos.offset = some pos := by
  have hvalid : pos.offset.isValidForSlice source.toSlice = true := by
    rw [String.Pos.Raw.isValidForSlice_eq_true_iff, String.Pos.Raw.isValidForSlice_toSlice_iff]
    exact pos.isValid
  simp only [String.pos?, String.Slice.pos?, hvalid, dif_pos, Option.map_some]
  rfl

theorem slice?_offset {source : String} {first last : source.Pos} (hle : first ≤ last) :
    slice? source first.offset.byteIdx last.offset.byteIdx =
      some (source.slice first last hle).copy := by
  have hslice : source.slice? first last = some (source.slice first last hle) := dif_pos hle
  change (source.pos? first.offset >>= fun first => source.pos? last.offset >>= fun last =>
    source.slice? first last >>= fun piece => some piece.copy) = _
  simp only [pos?_offset, Option.bind_eq_bind, Option.bind_some, hslice]

/-- Whole characters in front of a piece and in the piece make a slice of it. -/
theorem slice?_append (before word after : String) :
    slice? (before ++ word ++ after) before.utf8ByteSize (before ++ word).utf8ByteSize =
      some word := by
  let source := before ++ word ++ after
  have hassoc : source = before ++ (word ++ after) := String.append_assoc
  have hfirst : (⟨before.utf8ByteSize⟩ : String.Pos.Raw).IsValid source :=
    String.Pos.Raw.isValid_iff_exists_append.mpr ⟨before, word ++ after, hassoc, rfl⟩
  have hlast : (⟨(before ++ word).utf8ByteSize⟩ : String.Pos.Raw).IsValid source :=
    String.Pos.Raw.isValid_iff_exists_append.mpr ⟨before ++ word, after, rfl, rfl⟩
  obtain ⟨hle, hcopy⟩ : ∃ h : (⟨_, hfirst⟩ : source.Pos) ≤ ⟨_, hlast⟩,
      (source.slice ⟨_, hfirst⟩ ⟨_, hlast⟩ h).copy = word :=
    String.copy_slice_eq_iff_splits.mpr ⟨before, after, ⟨hassoc, rfl⟩, ⟨rfl, rfl⟩⟩
  exact (slice?_offset hle).trans (congrArg some hcopy)

/-- The pieces are the words of the text. -/
theorem cutFrom_eq {source : String} (hsize : source.utf8ByteSize < Word.modulus)
    (before word : String) {rest : List Char} (hword : ' ' ∉ word.toList)
    (hsource : source = before ++ word ++ String.ofList rest) (index : Nat) :
    cutFrom source before.utf8ByteSize (before ++ word).utf8ByteSize index rest =
      some (Token.numbered index
        (((word.toList ++ rest).splitOn ' ').map String.ofList)) := by
  induction rest generalizing before word index with
  | nil =>
      have hslice := slice?_append before word (String.ofList [])
      rw [← hsource] at hslice
      rw [cutFrom, hslice, List.append_nil, List.splitOn_eq_singleton hword]
      simp [Token.numbered]
  | cons c rest ih =>
      have hslice := slice?_append before word (String.ofList (c :: rest))
      rw [← hsource] at hslice
      have hstep : source = before ++ (word ++ String.singleton c) ++ String.ofList rest := by
        rw [hsource]
        apply String.toList_injective
        simp
      have hnext : (before ++ word).utf8ByteSize + c.utf8Size =
          (before ++ (word ++ String.singleton c)).utf8ByteSize := by
        simp only [String.utf8ByteSize_append, String.utf8ByteSize_singleton, Nat.add_assoc]
      have hfits : (before ++ word).utf8ByteSize + c.utf8Size < Word.modulus := by
        rw [hstep, String.utf8ByteSize_append, ← hnext] at hsize
        omega
      rw [cutFrom, guard_eq_some hfits, hnext]
      by_cases hc : c = ' '
      · subst hc
        have hrest := ih (before ++ (word ++ String.singleton ' ')) "" (by simp)
          (by simpa using hstep) (index + 1)
        rw [String.append_empty] at hrest
        simp only [Option.bind_eq_bind, Option.bind_some, if_true, hslice, hrest]
        rw [List.splitOn_append_cons_self_of_not_mem hword]
        simp [Token.numbered]
      · have hrest := ih before (word ++ String.singleton c)
          (by simpa using ⟨hword, Ne.symm hc⟩) hstep index
        simp only [Option.bind_eq_bind, Option.bind_some, hc, if_false, hrest]
        simp

/-- Words are cut at the boundaries of characters, and what is cut are the tokens. -/
theorem cut_eq_tokens {source : String} (hsize : source.utf8ByteSize < Word.modulus) :
    cut source = some (tokens source) := by
  rw [cut, tokens_eq_numbered, text_tokens]
  exact cutFrom_eq hsize "" "" (by simp) (by simp) 0

end Source

end WordMachine
