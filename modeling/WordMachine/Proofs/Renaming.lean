import Mathlib
import WordMachine.Proofs.SourceErrors

/-!
# Renaming labels

Labels may be called anything.  A token with a sigil is never a mnemonic, a register, a mark
or a numeral, whatever its name is, so each pass goes the same way over a text in which all
labels have other names.  It gives the same machine, or it fails at the same place.
-/

namespace WordMachine

/-- The names that labels have in source text. -/
abbrev LabelName := {name : String // name ≠ "" ∧ ' ' ∉ name.toList}

/-- New names for all labels, different ones for different labels. -/
abbrev Renaming := LabelName ↪ LabelName

namespace Renaming

/-- The new name of a label.  What is no name of a label stays. -/
def name (f : Renaming) (name : String) : String :=
  if h : name ≠ "" ∧ ' ' ∉ name.toList then (f ⟨name, h⟩).val else name

/-- A word of source text with the name behind its sigil replaced. -/
def word (f : Renaming) (text : String) : String :=
  match text.toList with
  | ':' :: rest => ":" ++ f.name (String.ofList rest)
  | '.' :: rest => "." ++ f.name (String.ofList rest)
  | _ => text

end Renaming

def Token.rename (f : Renaming) (t : Token) : Token := { t with text := f.word t.text }

def Window.rename (f : Renaming) (w : Window) : Window :=
  ⟨w.mnemonic.rename f, w.following.map (Token.rename f)⟩

def Label.rename (f : Renaming) (l : Label) : Label := { l with name := f.name l.name }

def SymbolTable.rename (f : Renaming) (table : SymbolTable) : SymbolTable :=
  ⟨table.labels.map (Label.rename f)⟩

/-- The same failure at the same place of a text with other names. -/
def SourceError.rename (f : Renaming) : SourceError → SourceError
  | .tokenCount expected actual => .tokenCount expected actual
  | .malformed token => .malformed (token.rename f)
  | .unexpectedEnd index => .unexpectedEnd index
  | .invalidRegister token => .invalidRegister (token.rename f)
  | .invalidNumber token => .invalidNumber (token.rename f)
  | .unknownLabel index label => .unknownLabel index (f.name label)
  | .duplicateLabel label first second => .duplicateLabel (f.name label) first second
  | .outOfMemory required capacity => .outOfMemory required capacity

def Program.rename (f : Renaming) (p : Program) : Program :=
  { p with labels := p.labels.rename f }

/-- A source text with the names behind its sigils replaced. -/
def Source.rename (f : Renaming) (source : String) : String :=
  ofTokens ((tokens source).map (Token.rename f))

/-- An outcome whose failure, or else whose value, is renamed. -/
def Renaming.outcome {A B : Type} (f : Renaming) (g : A → B) (x : Except SourceError A) :
    Except SourceError B :=
  (x.map g).mapError (SourceError.rename f)

namespace Renaming

variable (f : Renaming) {sigil text : String}

theorem name_injective : Function.Injective f.name := by
  intro a b h
  unfold name at h
  split_ifs at h with ha hb hb
  · exact congrArg Subtype.val (f.injective (Subtype.ext h))
  · exact absurd (h ▸ (f ⟨a, ha⟩).property) hb
  · exact absurd (h ▸ (f ⟨b, hb⟩).property) ha
  · exact h

theorem name_empty : f.name "" = "" := dif_neg fun h => h.1 rfl

theorem name_eq_empty_iff {name : String} : f.name name = "" ↔ name = "" :=
  ⟨fun h => f.name_injective (h.trans f.name_empty.symm), fun h => h ▸ f.name_empty⟩

theorem space_notMem_name {name : String} (h : ' ' ∉ name.toList) :
    ' ' ∉ (f.name name).toList := by
  unfold Renaming.name
  split_ifs with hname
  · exact (f ⟨name, hname⟩).property.2
  · exact h

theorem word_sigil (hsigil : sigil ∈ Token.sigils) (name : String) :
    f.word (sigil ++ name) = sigil ++ f.name name := by
  fin_cases hsigil <;> simp [word]

theorem word_of_isPlain (h : Token.IsPlain text) : f.word text = text := by
  unfold word
  split
  · next heq => exact absurd (by simp [heq]) h.1
  · next heq => exact absurd (by simp [heq]) h.2
  · rfl

/-- Renaming makes no plain word and hides none. -/
theorem word_eq_iff {s : String} (hs : Token.IsPlain s) : f.word text = s ↔ text = s := by
  obtain hplain | ⟨sigil, hsigil, name, rfl⟩ := Token.cases_text text
  · rw [f.word_of_isPlain hplain]
  · have hne : ∀ name, sigil ++ name ≠ s := by
      rintro name rfl
      exact Token.not_isPlain_sigil hsigil name hs
    rw [f.word_sigil hsigil]
    exact iff_of_false (hne _) (hne _)

theorem space_notMem_word (h : ' ' ∉ text.toList) : ' ' ∉ (f.word text).toList := by
  obtain hplain | ⟨sigil, hsigil, name, rfl⟩ := Token.cases_text text
  · rwa [f.word_of_isPlain hplain]
  · rw [f.word_sigil hsigil]
    rw [String.toList_append, List.mem_append, not_or] at h ⊢
    exact ⟨h.1, f.space_notMem_name h.2⟩

end Renaming

namespace Renaming

variable {A B A' B' : Type} {f : Renaming}

/-- A chain is renamed step by step. -/
theorem bind_outcome {x : Except SourceError A} {g : A → A'} {h : B → B'}
    {k : A → Except SourceError B} {k' : A' → Except SourceError B'}
    (hk : ∀ a, x = .ok a → k' (g a) = f.outcome h (k a)) :
    (f.outcome g x >>= k') = f.outcome h (x >>= k) := by
  cases x with
  | error cause => rfl
  | ok a => exact hk a rfl

end Renaming

namespace Token

variable (f : Renaming) {t : Token}

theorem rename_of_isPlain (h : IsPlain t.text) : t.rename f = t := by
  rw [rename, f.word_of_isPlain h]

/-- A new name leaves the sigil. -/
theorem role_rename (t : Token) : (t.rename f).role = t.role := by
  obtain ⟨text, index⟩ := t
  obtain hplain | ⟨sigil, hsigil, name, rfl⟩ := cases_text text
  · rw [rename_of_isPlain f hplain]
  · rw [rename, f.word_sigil hsigil]
    exact role_sigil hsigil _ _ index

theorem text_rename_eq_iff {s : String} (hs : IsPlain s) : (t.rename f).text = s ↔ t.text = s :=
  f.word_eq_iff hs

theorem isRegister_rename (t : Token) : (t.rename f).isRegister = t.isRegister := by
  apply Bool.eq_iff_iff.mpr
  rw [isRegister_iff, isRegister_iff]
  refine exists_congr fun r => and_congr_right fun _ => ?_
  rw [eq_comm, text_rename_eq_iff f (isPlain_name r), eq_comm]

/-- There is a name behind a sigil or there is none, whatever the name is. -/
theorem labelName_rename (h : t.role ≠ .plain) :
    (t.rename f).labelName = f.outcome f.name t.labelName := by
  obtain ⟨text, index⟩ := t
  obtain hplain | ⟨sigil, hsigil, name, rfl⟩ := cases_text text
  · exact absurd (role_eq_plain (t := ⟨text, index⟩) hplain) h
  · simp only [rename, f.word_sigil hsigil, labelName_sigil hsigil, f.name_eq_empty_iff]
    split_ifs
    · rw [← f.word_sigil hsigil]
      rfl
    · rfl

end Token

namespace Window

variable (f : Renaming)

theorem operand_rename (w : Window) (n : Nat) :
    (w.rename f).operand n = f.outcome (Token.rename f) (w.operand n) := by
  simp only [operand, rename, List.getElem?_map]
  cases w.following[n]? <;> rfl

/-- The look-ahead of a move sees marks and registers alone. -/
theorem ofMove_rename (w : Window) :
    Opcode.ofMove (w.rename f) = f.outcome id (Opcode.ofMove w) := by
  have hbracket : ∀ t : Token, (t.rename f).text = "[" ↔ t.text = "[" := fun _ =>
    Token.text_rename_eq_iff f (by decide)
  rw [Opcode.ofMove, Opcode.ofMove, operand_rename]
  apply Renaming.bind_outcome
  intro destination _
  simp only [hbracket, Token.isRegister_rename, operand_rename]
  split_ifs
  · apply Renaming.bind_outcome
    intro source _
    rw [Token.isRegister_rename]
    rfl
  · apply Renaming.bind_outcome
    intro source _
    simp only [hbracket, Token.isRegister_rename]
    rfl
  · rfl

theorem opcode_of_not_isMnemonic {w : Window} (h : ¬ Opcode.IsMnemonic w.mnemonic.text) :
    Opcode.ofWindow w = .error (.malformed w.mnemonic) := by
  unfold Opcode.ofWindow
  split
  case h_1 heq => exact absurd ⟨.je, heq.symm⟩ h
  case h_2 heq => exact absurd ⟨.jmp, heq.symm⟩ h
  case h_3 heq => exact absurd ⟨.cmp, heq.symm⟩ h
  case h_4 heq => exact absurd ⟨.add, heq.symm⟩ h
  case h_5 heq => exact absurd ⟨.sub, heq.symm⟩ h
  case h_6 heq => exact absurd ⟨.inc, heq.symm⟩ h
  case h_7 heq => exact absurd ⟨.exit, heq.symm⟩ h
  case h_8 heq => exact absurd ⟨.copy, heq.symm⟩ h
  case h_9 => rfl

/-- Renaming keeps the opcode, or the word that is none stays none. -/
theorem opcode_rename (w : Window) :
    Opcode.ofWindow (w.rename f) = f.outcome id (Opcode.ofWindow w) := by
  obtain ⟨⟨text, index⟩, following⟩ := w
  by_cases hmnemonic : Opcode.IsMnemonic text
  · obtain ⟨op, rfl⟩ := hmnemonic
    have hmove := ofMove_rename f ⟨⟨op.mnemonic, index⟩, following⟩
    have hword : (⟨op.mnemonic, index⟩ : Token).rename f = ⟨op.mnemonic, index⟩ :=
      Token.rename_of_isPlain f (Token.isPlain_mnemonic op)
    rw [rename, hword] at hmove ⊢
    cases op
    case storeRegister | storeValue | load | copy | set => exact hmove
    all_goals rfl
  · have hrenamed : ¬ Opcode.IsMnemonic (f.word text) := by
      rintro ⟨op, hop⟩
      exact hmnemonic ⟨op, ((f.word_eq_iff (Token.isPlain_mnemonic op)).mp hop.symm).symm⟩
    have hw := opcode_of_not_isMnemonic (w := ⟨⟨text, index⟩, following⟩) hmnemonic
    have hw' := opcode_of_not_isMnemonic (w := rename f ⟨⟨text, index⟩, following⟩) hrenamed
    rw [hw, hw']
    rfl

end Window

/-! ## The label pass -/

namespace SymbolTable

variable (f : Renaming)

theorem find?_rename (table : SymbolTable) (name : String) :
    (table.rename f).find? (f.name name) = (table.find? name).map (Label.rename f) := by
  have hname : ((fun l : Label => l.name == f.name name) ∘ Label.rename f) =
      fun l => l.name == name := by
    funext l
    exact Bool.eq_iff_iff.mpr (by simp [Label.rename, f.name_injective.eq_iff])
  rw [find?, find?, rename, List.find?_map, hname]

theorem declare_rename (table : SymbolTable) (l : Label) :
    (table.rename f).declare (l.rename f) = f.outcome (rename f) (table.declare l) := by
  rw [declare, declare, Label.rename, find?_rename]
  cases table.find? l.name with
  | none => simp [Renaming.outcome, Except.map, Except.mapError, rename, Label.rename]
  | some earlier => rfl

/-- The label pass finds the same labels under other names. -/
theorem scan_rename (table : SymbolTable) (address : Word) (stream : List Token) :
    (table.rename f).scan address (stream.map (Token.rename f)) =
      f.outcome (Prod.map (rename f) id) (table.scan address stream) := by
  induction hlength : stream.length using Nat.strong_induction_on
    generalizing table address stream with
  | h n ih =>
      subst hlength
      cases stream with
      | nil =>
          rw [List.map_nil, scan, scan]
          rfl
      | cons t rest =>
          rw [List.map_cons, scan, scan, Token.role_rename]
          split_ifs with hrole
          · rw [Token.labelName_rename f (by simp [hrole])]
            apply Renaming.bind_outcome
            intro name _
            have hdeclare := declare_rename f table ⟨name, address, t.index⟩
            rw [Label.rename] at hdeclare
            rw [show (t.rename f).index = t.index from rfl, hdeclare]
            apply Renaming.bind_outcome
            intro table' _
            exact ih rest.length (by simp) table' address rest rfl
          · have hop := Window.opcode_rename f ⟨t, rest⟩
            rw [Window.rename] at hop
            rw [hop]
            apply Renaming.bind_outcome
            intro op _
            rw [List.length_map, ← List.map_drop]
            by_cases hshort : rest.length + 1 < op.tokenCount
            · simp only [id_eq, hshort, if_true]
              rfl
            · simp only [id_eq, hshort, if_false]
              exact ih _ (by simp) table (address + UInt64.ofNat op.wordCount) (rest.drop _) rfl

/-- The label pass finds the renamed labels, or the same failure with other names. -/
theorem ofTokens_rename (stream : List Token) :
    ofTokens (stream.map (Token.rename f)) = f.outcome (rename f) (ofTokens stream) := by
  have hscan := scan_rename f {} 0 stream
  change scan {} 0 (stream.map (Token.rename f)) = _ at hscan
  rw [ofTokens, ofTokens, hscan]
  cases scan {} 0 stream <;> rfl

theorem resolveToken_rename (table : SymbolTable) {t : Token} (h : t.role = .reference) :
    (table.rename f).resolveToken (t.rename f) = f.outcome id (table.resolveToken t) := by
  rw [resolveToken, resolveToken, Token.labelName_rename f (by simp [h])]
  apply Renaming.bind_outcome
  intro name _
  have haddress : (table.rename f).address? (f.name name) = table.address? name := by
    rw [address?, address?, find?_rename, Option.map_map]
    rfl
  rw [haddress]
  cases table.address? name <;> rfl

/-- What a text resolves to does not show the names of its labels. -/
theorem resolve_rename (table : SymbolTable) (stream : List Token) :
    (table.rename f).resolve (stream.map (Token.rename f)) =
      f.outcome id (table.resolve stream) := by
  induction stream with
  | nil => rfl
  | cons t rest ih =>
      rw [List.map_cons, resolve, resolve, Token.role_rename]
      cases hrole : t.role with
      | declaration => exact ih
      | reference =>
          simp only [resolveToken_rename f table hrole, ih]
          apply Renaming.bind_outcome
          intro first _
          apply Renaming.bind_outcome
          intro later _
          rfl
      | plain =>
          simp only [ih, Token.rename_of_isPlain f (Token.isPlain_of_role hrole)]
          apply Renaming.bind_outcome
          intro later _
          rfl

end SymbolTable

theorem SourceError.rename_of_blames (f : Renaming) {cause : SourceError} {stream : List Token}
    (h : cause.Blames stream) (hplain : ∀ t ∈ stream, Token.IsPlain t.text) :
    cause.rename f = cause := by
  cases cause with
  | malformed t => rw [rename, Token.rename_of_isPlain f (hplain t h)]
  | invalidRegister t | invalidNumber t =>
      rw [rename, Token.rename_of_isPlain f (hplain t h.1)]
  | unexpectedEnd => rfl
  | tokenCount | unknownLabel | duplicateLabel | outOfMemory => exact h.elim

/-- Without sigils there is nothing to rename. -/
theorem Machine.ofTokens_of_isPlain (f : Renaming) (size : Nat) {stream : List Token}
    (hplain : ∀ t ∈ stream, Token.IsPlain t.text) :
    f.outcome id (ofTokens size stream) = ofTokens size stream := by
  cases h : ofTokens size stream with
  | ok m => rfl
  | error cause =>
      have hread : Instruction.listOfTokens size 0 stream = .error cause := by
        rcases bind_eq_error_iff.mp h with hread | ⟨_, _, h⟩
        · exact hread
        · cases h
      rcases Instruction.blames_of_listOfTokens (Nat.zero_le size) hread with
        hblames | ⟨_, rfl, _⟩
      · exact congrArg Except.error (SourceError.rename_of_blames f hblames hplain)
      · rfl

namespace Source

variable (f : Renaming)

/-- A renamed text has the renamed words at the same places. -/
theorem tokens_rename (source : String) :
    tokens (rename f source) = (tokens source).map (Token.rename f) := by
  have hspace : ∀ t ∈ (tokens source).map (Token.rename f), ' ' ∉ t.text.toList := by
    intro t ht
    obtain ⟨original, horiginal, rfl⟩ := List.mem_map.mp ht
    exact f.space_notMem_word (space_notMem_text horiginal)
  have hne : (tokens source).map (Token.rename f) ≠ [] := by
    simp [tokens]
  rw [rename, tokens_ofTokens hne hspace]
  apply List.ext_getElem?
  intro i
  rw [Token.getElem?_numbered, List.getElem?_map, List.getElem?_map, Option.map_map,
    Option.map_map]
  cases ht : (tokens source)[i]? with
  | none => rfl
  | some t => simp [Token.rename, index_of_getElem? ht]

example :
    let f : Renaming := (Equiv.swap ⟨"x", by decide⟩ ⟨"eax", by decide⟩).toEmbedding
    rename f ":x inc eax jmp .x ." = ":eax inc eax jmp .eax ." := by cbv

end Source

/-- Renaming the labels of a text renames the labels of the program and nothing else, and
renames nothing but names in the error of a text that is no program. -/
theorem Program.ofSource_rename (f : Renaming) (source : String) (limits : Limits) :
    Program.ofSource (Source.rename f source) limits =
      ((Program.ofSource source limits).map (Program.rename f)).mapError
        (SourceError.rename f) := by
  change _ = f.outcome (Program.rename f) (ofSource source limits)
  rw [ofSource, ofSource, Source.tokens_rename, SymbolTable.ofTokens_rename]
  apply Renaming.bind_outcome
  intro table _
  rw [SymbolTable.resolve_rename]
  apply Renaming.bind_outcome
  intro resolved hresolved
  have hplain : ∀ t ∈ resolved, Token.IsPlain t.text := fun t =>
    SymbolTable.isPlain_of_mem_resolved (SymbolTable.resolve_eq_ok_iff.mp hresolved)
  rw [id_eq]
  nth_rewrite 1 [← Machine.ofTokens_of_isPlain f limits.memorySize hplain]
  apply Renaming.bind_outcome
  intro machine _
  rfl

end WordMachine
