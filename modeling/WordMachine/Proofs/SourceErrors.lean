import Mathlib
import WordMachine.Proofs.Decoding
import WordMachine.Proofs.Resolving

/-!
# Errors in source texts

A source text that is no program is refused with an error that points at one of its words.
The passes delete and rewrite tokens, but a token keeps its index, so the word that is found
there is the one at fault.  Only the numeral of a label can stand where the source has a
reference.
-/

namespace WordMachine

namespace SourceError

/-- Whether an error is about one of the given tokens, and the token does not fit. -/
def Blames (stream : List Token) : SourceError → Prop
  | .malformed t => t ∈ stream
  | .unexpectedEnd index => ∃ op : Opcode, ⟨op.mnemonic, index⟩ ∈ stream
  | .invalidRegister t => t ∈ stream ∧ ¬ Register.IsName t.text
  | .invalidNumber t => t ∈ stream ∧ ¬ Word.IsNumeral t.text
  | .tokenCount _ _ | .unknownLabel _ _ | .duplicateLabel _ _ _ | .outOfMemory _ _ => False

theorem Blames.mono {stream stream' : List Token} {cause : SourceError}
    (h : cause.Blames stream) (hsub : stream ⊆ stream') : cause.Blames stream' := by
  cases cause with
  | malformed t => exact hsub h
  | unexpectedEnd index => exact h.imp fun _ hop => hsub hop
  | invalidRegister t | invalidNumber t => exact ⟨hsub h.1, h.2⟩
  | tokenCount | unknownLabel | duplicateLabel | outOfMemory => exact h

end SourceError

namespace Window

def tokens (w : Window) : List Token := w.mnemonic :: w.following

/-- Whether a reader fails only with errors about tokens of the window. -/
def Answers {A : Type} (w : Window) (read : Except SourceError A) : Prop :=
  ∀ cause, read = .error cause → cause.Blames w.tokens

variable {A B : Type} {w : Window}

theorem answers_ok (a : A) : w.Answers (.ok a) := by
  intro cause h
  cases h

theorem Answers.bind {read : Except SourceError A} {f : A → Except SourceError B}
    (hread : w.Answers read) (hf : ∀ a, read = .ok a → w.Answers (f a)) :
    w.Answers (read >>= f) := by
  intro cause h
  rcases bind_eq_error_iff.mp h with h | ⟨a, ha, h⟩
  · exact hread cause h
  · exact hf a ha cause h

section

variable (hmnemonic : Opcode.IsMnemonic w.mnemonic.text)

include hmnemonic

/-- What is read from the `n`th token fails if there is none or as the rest does. -/
theorem answers_operand_bind {f : Token → Except SourceError A} (n : Nat)
    (hf : ∀ t ∈ w.tokens, w.Answers (f t)) : w.Answers (w.operand n >>= f) := by
  intro cause h
  rw [operand] at h
  cases htoken : w.following[n]? with
  | none =>
      rw [htoken] at h
      cases h
      obtain ⟨op, hop⟩ := hmnemonic
      exact ⟨op, by simp [hop, tokens]⟩
  | some t =>
      rw [htoken] at h
      exact hf t (List.mem_cons_of_mem _ (List.mem_of_getElem? htoken)) cause h

theorem answers_expect (n : Nat) (mark : String) : w.Answers (w.expect n mark) := by
  apply answers_operand_bind hmnemonic
  intro t ht cause h
  split at h
  · cases h
  · cases h
    exact ht

theorem answers_register (n : Nat) : w.Answers (w.register n) := by
  apply answers_operand_bind hmnemonic
  intro t ht cause h
  split at h
  · cases h
  · next hname =>
    cases h
    refine ⟨ht, ?_⟩
    rw [← Token.isRegister_iff, Token.isRegister, hname]
    decide

theorem answers_value (n : Nat) : w.Answers (w.value n) := by
  apply answers_operand_bind hmnemonic
  intro t ht cause h
  split at h
  · cases h
  · next htext =>
    cases h
    refine ⟨ht, ?_⟩
    rw [← Word.isSome_ofText?_iff, htext]
    decide

theorem answers_cell (n : Nat) : w.Answers (w.cell n) :=
  (answers_expect hmnemonic n "[").bind fun _ _ =>
    (answers_register hmnemonic (n + 1)).bind fun _ _ =>
      (answers_expect hmnemonic (n + 2) "+").bind fun _ _ =>
        (answers_value hmnemonic (n + 3)).bind fun _ _ =>
          (answers_expect hmnemonic (n + 4) "]").bind fun _ _ => answers_ok _

theorem answers_ofMove : w.Answers (Opcode.ofMove w) := by
  apply answers_operand_bind hmnemonic
  intro destination hdestination
  split
  · exact answers_operand_bind hmnemonic 6 fun _ _ => answers_ok _
  split
  · exact answers_operand_bind hmnemonic 2 fun _ _ => answers_ok _
  · intro cause h
    cases h
    exact hdestination

end

theorem answers_opcode (w : Window) : w.Answers (Opcode.ofWindow w) := by
  unfold Opcode.ofWindow
  split
  case h_8 hmov => exact answers_ofMove ⟨.copy, hmov.symm⟩
  case h_9 =>
    intro cause h
    cases h
    exact List.mem_cons_self
  all_goals exact answers_ok _

/-- Reading an instruction fails only with an error about one of its tokens. -/
theorem answers_instruction (w : Window) : w.Answers (Instruction.ofWindow w) := by
  apply (answers_opcode w).bind
  intro op hop
  have hm : Opcode.IsMnemonic w.mnemonic.text :=
    ⟨op, (Opcode.ofWindow_eq_ok_iff.mp hop).1.symm⟩
  cases op with
  | je | jmp => exact (answers_value hm 0).bind fun _ _ => answers_ok _
  | cmp | sub | set =>
      exact (answers_expect hm 1 ",").bind fun _ _ =>
        (answers_register hm 0).bind fun _ _ => (answers_value hm 2).bind fun _ _ => answers_ok _
  | add | load =>
      exact (answers_register hm 0).bind fun _ _ => (answers_expect hm 1 ",").bind fun _ _ =>
        (answers_cell hm 2).bind fun _ _ => answers_ok _
  | storeRegister =>
      exact (answers_cell hm 0).bind fun _ _ => (answers_expect hm 5 ",").bind fun _ _ =>
        (answers_register hm 6).bind fun _ _ => answers_ok _
  | storeValue =>
      exact (answers_cell hm 0).bind fun _ _ => (answers_expect hm 5 ",").bind fun _ _ =>
        (answers_value hm 6).bind fun _ _ => answers_ok _
  | copy =>
      exact (answers_expect hm 1 ",").bind fun _ _ => (answers_register hm 0).bind fun _ _ =>
        (answers_register hm 2).bind fun _ _ => answers_ok _
  | inc => exact (answers_register hm 0).bind fun _ _ => answers_ok _
  | exit => exact answers_ok _

end Window

theorem Token.labelName_eq_error {t : Token} {cause : SourceError}
    (h : t.labelName = .error cause) : cause = .malformed t := by
  unfold labelName at h
  split at h
  · cases h
  · cases h
    rfl

theorem Window.tokens_drop_subset (w : Window) (n : Nat) :
    w.following.drop n ⊆ w.tokens :=
  List.Subset.trans (List.drop_subset n w.following) (List.subset_cons_self _ _)

/-- The last pass fails at one of its tokens, or at the first instruction that does not
fit in memory. -/
theorem Instruction.blames_of_listOfTokens {capacity used : Nat} (hused : used ≤ capacity)
    {stream : List Token} {cause : SourceError}
    (h : listOfTokens capacity used stream = .error cause) :
    cause.Blames stream ∨ ∃ required, cause = .outOfMemory required capacity ∧
      capacity < required ∧ required ≤ capacity + 4 := by
  induction hlength : stream.length using Nat.strong_induction_on generalizing stream used with
  | h n ih =>
      subst hlength
      cases stream with
      | nil => simp [listOfTokens] at h
      | cons t rest =>
          cases hread : ofWindow ⟨t, rest⟩ with
          | error cause' =>
              rw [listOfTokens_cons_of_error hread] at h
              cases h
              exact .inl (Window.answers_instruction ⟨t, rest⟩ _ hread)
          | ok ins =>
              rcases Nat.lt_or_ge capacity (used + ins.wordCount) with hfull | hfits
              · rw [listOfTokens_cons_of_full hread hfull] at h
                cases h
                exact .inr ⟨_, rfl, hfull, Nat.add_le_add hused ins.opcode.wordCount_le⟩
              · rw [listOfTokens_cons_of_fits hread hfits] at h
                have hrest := map_eq_error_iff.mp h
                have hshort : (rest.drop (ins.tokenCount - 1)).length < (t :: rest).length := by
                  simp
                apply (ih _ hshort hfits hrest rfl).imp_left
                intro hblames
                exact hblames.mono (Window.tokens_drop_subset ⟨t, rest⟩ _)

namespace SymbolTable

variable {table : SymbolTable} {stream all : List Token} {cause : SourceError}

/-- The labels of a table are declared in front of a part of the tokens. -/
def DeclaredBefore (table : SymbolTable) (all stream : List Token) : Prop :=
  ∀ l ∈ table.labels, ⟨":" ++ l.name, l.index⟩ ∈ all ∧ ∀ t ∈ stream, l.index < t.index

theorem DeclaredBefore.mono {stream' : List Token} (h : table.DeclaredBefore all stream)
    (hsub : stream' ⊆ stream) : table.DeclaredBefore all stream' :=
  fun l hl => ⟨(h l hl).1, fun t ht => (h l hl).2 t (hsub ht)⟩

theorem exists_of_declare_error {l : Label} (h : table.declare l = .error cause) :
    ∃ earlier ∈ table.labels, earlier.name = l.name ∧
      cause = .duplicateLabel l.name earlier.index l.index := by
  unfold declare at h
  split at h
  · next earlier hfind =>
    cases h
    exact ⟨earlier, List.mem_of_find?_eq_some hfind, by simpa using List.find?_some hfind, rfl⟩
  · cases h

/-- The label pass fails at one of its tokens, or at the second declaration of a name. -/
theorem blames_of_scan {address : Word} (hsub : stream ⊆ all)
    (hsorted : stream.Pairwise fun t t' => t.index < t'.index)
    (htable : table.DeclaredBefore all stream)
    (h : table.scan address stream = .error cause) :
    cause.Blames all ∨ ∃ name first second, cause = .duplicateLabel name first second ∧
      first < second ∧ ⟨":" ++ name, first⟩ ∈ all ∧ ⟨":" ++ name, second⟩ ∈ all := by
  induction hlength : stream.length using Nat.strong_induction_on
    generalizing table address stream with
  | h n ih =>
      subst hlength
      cases stream with
      | nil => simp [scan] at h
      | cons t rest =>
          obtain ⟨ht, hrest⟩ := List.cons_subset.mp hsub
          obtain ⟨hfirst, hsorted⟩ := List.pairwise_cons.mp hsorted
          rw [scan] at h
          by_cases hrole : t.role = .declaration
          · rw [if_pos hrole] at h
            rcases bind_eq_error_iff.mp h with hname | ⟨name, hname, h⟩
            · rw [Token.labelName_eq_error hname]
              exact .inl ht
            obtain ⟨htext, -⟩ := Token.text_eq_colon hrole hname
            have hmem : (⟨":" ++ name, t.index⟩ : Token) ∈ all := by rwa [← htext]
            rcases bind_eq_error_iff.mp h with hdeclare | ⟨table', hdeclare, h⟩
            · obtain ⟨earlier, hearlier, hsame, rfl⟩ := exists_of_declare_error hdeclare
              obtain ⟨hall, hbefore⟩ := htable earlier hearlier
              have hfirst : (⟨":" ++ name, earlier.index⟩ : Token) ∈ all := by rwa [hsame] at hall
              exact .inr ⟨name, _, _, rfl, hbefore t List.mem_cons_self, hfirst, hmem⟩
            · refine ih rest.length (by simp) hrest hsorted ?_ h rfl
              obtain ⟨-, rfl⟩ := declare_eq_ok_iff.mp hdeclare
              intro l hl
              rcases List.mem_append.mp hl with hl | hl
              · exact htable.mono (List.subset_cons_self t rest) l hl
              · cases List.mem_singleton.mp hl
                exact ⟨hmem, hfirst⟩
          · rw [if_neg hrole] at h
            rcases bind_eq_error_iff.mp h with hop | ⟨op, hop, h⟩
            · exact .inl ((Window.answers_opcode ⟨t, rest⟩ cause hop).mono hsub)
            by_cases hshort : rest.length + 1 < op.tokenCount
            · simp only [hshort, if_true] at h
              cases h
              refine .inl ⟨op, ?_⟩
              rwa [← (Opcode.ofWindow_eq_ok_iff.mp hop).1]
            · simp only [hshort, if_false] at h
              have hdrop : rest.drop (op.tokenCount - 1) ⊆ rest := List.drop_subset _ _
              refine ih _ ?_ (List.Subset.trans hdrop hrest) hsorted.drop ?_ h rfl
              · simp
              · exact htable.mono (List.Subset.trans hdrop (List.subset_cons_self t rest))

/-- A reference has no name, or a name that the table does not have. -/
theorem blames_of_resolve (h : table.resolve stream = .error cause) :
    cause.Blames stream ∨ ∃ name index, cause = .unknownLabel index name ∧
      ⟨"." ++ name, index⟩ ∈ stream ∧ name ∉ table.names := by
  obtain ⟨before, t, after, rfl, -, name, htext, hrefused⟩ := resolve_eq_error_iff.mp h
  have ht : t ∈ before ++ t :: after := by simp
  obtain ⟨-, rfl⟩ | ⟨-, hname, rfl⟩ := hrefused
  · exact .inl ht
  · exact .inr ⟨name, t.index, rfl, by rwa [← htext], hname⟩

end SymbolTable

/-! ## What an error says -/

namespace Source

def word? (source : String) (index : Nat) : Option String :=
  (tokens source)[index]?.map Token.text

/-- A token is found at its place, as a word of the source text or as the numeral that a
reference there is resolved to. -/
def Shows (source : String) (t : Token) : Prop :=
  t.index < tokenCount source ∧
    (word? source t.index = some t.text ∨
      ∃ name table address, word? source t.index = some ("." ++ name) ∧
        SymbolTable.ofTokens (tokens source) = .ok table ∧
        table.address? name = some address ∧ t.text = address.text)

variable {source : String} {t : Token}

theorem word?_of_mem {text : String} {index : Nat} (h : ⟨text, index⟩ ∈ tokens source) :
    word? source index = some text := by
  rw [word?, getElem?_index h]
  rfl

theorem lt_tokenCount_of_mem (h : t ∈ tokens source) : t.index < tokenCount source := by
  rw [← length_tokens]
  exact (List.getElem?_eq_some_iff.mp (getElem?_index h)).1

theorem shows_of_mem (h : t ∈ tokens source) : Shows source t :=
  ⟨lt_tokenCount_of_mem h, .inl (word?_of_mem h)⟩

theorem shows_of_resolves {table : SymbolTable} {t' : Token}
    (htable : SymbolTable.ofTokens (tokens source) = .ok table) (ht : t ∈ tokens source)
    (h : table.Resolves t t') : Shows source t' := by
  obtain ⟨-, rfl⟩ | ⟨name, address, htext, -, haddress, rfl⟩ := SymbolTable.cases_of_resolves h
  · exact shows_of_mem ht
  · have hplace : t.index < tokenCount source := lt_tokenCount_of_mem ht
    refine ⟨hplace, .inr ⟨name, table, address, ?_, htable, haddress, rfl⟩⟩
    rw [← htext]
    exact word?_of_mem ht

end Source

/-- Whether an error is true of a source text: the words that it names stand at the places
that it gives, and they do not fit there. -/
def SourceError.IsTrue (source : String) (limits : Limits) : SourceError → Prop
  | .tokenCount _ _ => False
  | .malformed t => Source.Shows source t
  | .unexpectedEnd index => ∃ op : Opcode, Source.word? source index = some op.mnemonic
  | .invalidRegister t => Source.Shows source t ∧ ¬ Register.IsName t.text
  | .invalidNumber t => Source.Shows source t ∧ ¬ Word.IsNumeral t.text
  | .unknownLabel index label =>
    Source.word? source index = some ("." ++ label) ∧
      ∃ table, SymbolTable.ofTokens (Source.tokens source) = .ok table ∧ label ∉ table.names
  | .duplicateLabel label first second =>
    first < second ∧ Source.word? source first = some (":" ++ label) ∧
      Source.word? source second = some (":" ++ label)
  | .outOfMemory required capacity =>
    capacity = limits.memorySize ∧ capacity < required ∧ required ≤ capacity + 4

namespace SourceError

variable {source : String} {limits : Limits} {cause : SourceError}

/-- An error about a token of a source text is true of the text. -/
theorem isTrue_of_blames (h : cause.Blames (Source.tokens source)) :
    cause.IsTrue source limits := by
  cases cause with
  | malformed t => exact Source.shows_of_mem h
  | unexpectedEnd index => exact h.imp fun _ hop => Source.word?_of_mem hop
  | invalidRegister t | invalidNumber t => exact ⟨Source.shows_of_mem h.1, h.2⟩
  | tokenCount | unknownLabel | duplicateLabel | outOfMemory => exact h.elim

/-- What is wrong with a resolved token is wrong with the token of the source. -/
theorem isTrue_of_blames_resolved {table : SymbolTable} {resolved : List Token}
    (htable : SymbolTable.ofTokens (Source.tokens source) = .ok table)
    (hresolve : table.resolve (Source.tokens source) = .ok resolved)
    (h : cause.Blames resolved) : cause.IsTrue source limits := by
  have hfound : ∀ t' ∈ resolved, ∃ t ∈ Source.tokens source, table.Resolves t t' := by
    intro t' ht'
    obtain ⟨t, ht, hresolves⟩ := SymbolTable.exists_of_mem_resolved
      (SymbolTable.resolve_eq_ok_iff.mp hresolve) ht'
    exact ⟨t, (List.mem_filter.mp ht).1, hresolves⟩
  have hshows : ∀ t' ∈ resolved, Source.Shows source t' := by
    intro t' ht'
    obtain ⟨t, ht, hresolves⟩ := hfound t' ht'
    exact Source.shows_of_resolves htable ht hresolves
  cases cause with
  | malformed t => exact hshows t h
  | unexpectedEnd index =>
      obtain ⟨op, hop⟩ := h
      obtain ⟨t, ht, hresolves⟩ := hfound _ hop
      refine ⟨op, ?_⟩
      obtain ⟨-, rfl⟩ | ⟨_, address, _, _, _, heq⟩ := SymbolTable.cases_of_resolves hresolves
      · exact Source.word?_of_mem ht
      · -- No numeral is a mnemonic.
        have hnumeral : Word.IsNumeral op.mnemonic :=
          (Token.mk.inj heq).1 ▸ Word.isNumeral_text address
        exact absurd hnumeral (not_isNumeral_mnemonic op)
  | invalidRegister t | invalidNumber t => exact ⟨hshows t h.1, h.2⟩
  | tokenCount | unknownLabel | duplicateLabel | outOfMemory => exact h.elim

end SourceError

theorem SymbolTable.declaredBefore_empty (all stream : List Token) :
    DeclaredBefore {} all stream := by
  intro l hl
  cases hl

/-- A source text that is no program is refused with an error that is true of it. -/
theorem Program.error_isTrue {source : String} {limits : Limits} {cause : SourceError}
    (h : Program.ofSource source limits = .error cause) : cause.IsTrue source limits := by
  rcases bind_eq_error_iff.mp h with hscan | ⟨table, htable, h⟩
  · have hblames := SymbolTable.blames_of_scan (List.Subset.refl _)
      (Source.pairwise_index_tokens source) (SymbolTable.declaredBefore_empty _ _)
      (map_eq_error_iff.mp hscan)
    rcases hblames with hblames | ⟨name, first, second, rfl, hlt, hfirst, hsecond⟩
    · exact SourceError.isTrue_of_blames hblames
    · exact ⟨hlt, Source.word?_of_mem hfirst, Source.word?_of_mem hsecond⟩
  rcases bind_eq_error_iff.mp h with hresolve | ⟨resolved, hresolve, h⟩
  · rcases SymbolTable.blames_of_resolve hresolve with hblames | ⟨name, index, rfl, hmem, hname⟩
    · exact SourceError.isTrue_of_blames hblames
    · exact ⟨Source.word?_of_mem hmem, table, htable, hname⟩
  rcases bind_eq_error_iff.mp h with hmachine | ⟨_, _, h⟩
  · rcases bind_eq_error_iff.mp hmachine with hread | ⟨_, _, h⟩
    · rcases Instruction.blames_of_listOfTokens (Nat.zero_le _) hread with
        hblames | ⟨required, rfl, hsize⟩
      · exact SourceError.isTrue_of_blames_resolved htable hresolve hblames
      · exact ⟨rfl, hsize⟩
    · cases h
  · cases h

/-- A declaration among the operands moves the next mnemonic into a value slot, and a
reference in place of a comma is read as its numeral.  The error names either where it stands
in the source. -/
theorem Program.error_isTrue_moved :
    (Source.Shows ":a cmp :b eax , jmp .a" ⟨"jmp", 5⟩ ∧ ¬ Word.IsNumeral "jmp") ∧
      Source.Shows "cmp eax .a 3 :a exit" ⟨"3", 2⟩ := by
  constructor
  · exact Program.error_isTrue (show Program.ofSource ":a cmp :b eax , jmp .a" {} =
      .error (.invalidNumber ⟨"jmp", 5⟩) by cbv)
  · exact Program.error_isTrue (show Program.ofSource "cmp eax .a 3 :a exit" {} =
      .error (.malformed ⟨"3", 2⟩) by cbv)

end WordMachine
