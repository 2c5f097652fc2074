import Mathlib
import WordMachine.Proofs.Unresolved

/-!
# Streams that all passes accept

The label pass skips operands unread and resolving drops a declaration wherever it
stands, so a declaration among the operands of an instruction passes both.  It shortens
the instruction, though, and the next mnemonic is then read as an operand, which it
cannot be.  A stream that all passes accept therefore spells an outline.
-/

namespace WordMachine

theorem not_isMnemonic_of_mem_operandTokens {src : Instruction String}
    (hvalues : ∀ s ∈ src.values, Word.IsNumeral s) {s : String}
    (hs : s ∈ src.operandTokens id) : ¬ Opcode.IsMnemonic s := by
  intro ⟨op, hop⟩
  rcases Instruction.mem_operandTokens hs with hmark | ⟨r, _, hr⟩ | ⟨v, hv, hvs⟩
  · exact mnemonic_notMem_marks op (hop ▸ hmark)
  · exact mnemonic_ne_name op r (hop.trans hr.symm)
  · exact not_isNumeral_mnemonic op (hop ▸ hvs ▸ hvalues v hv)

/-- The first token, if there is one, is a mnemonic. -/
def StartsInstruction (stream : List Token) : Prop :=
  ∀ t, stream.head? = some t → Opcode.IsMnemonic t.text

namespace SymbolTable

variable {table final : SymbolTable} {address : Word} {t : Token} {rest : List Token}
  {result : SymbolTable × Word}

/-- Where the label pass meets a declaration, it enters the name and goes on behind it. -/
theorem exists_of_scan_declaration (ht : t.role = .declaration)
    (h : table.scan address (t :: rest) = .ok result) :
    ∃ (name : String) (table' : SymbolTable), t.labelName = .ok name ∧
      table'.scan address rest = .ok result := by
  rw [scan, if_pos ht, bind_eq_ok_iff] at h
  obtain ⟨name, hname, h⟩ := h
  obtain ⟨table', _, hrest⟩ := bind_eq_ok_iff.mp h
  exact ⟨name, table', hname, hrest⟩

/-- Where it meets an instruction, it goes on behind the tokens of the opcode. -/
theorem exists_of_scan_instruction (ht : t.role ≠ .declaration)
    (h : table.scan address (t :: rest) = .ok result) :
    ∃ op, Opcode.ofWindow ⟨t, rest⟩ = .ok op ∧ op.tokenCount ≤ rest.length + 1 ∧
      table.scan (address + UInt64.ofNat op.wordCount) (rest.drop (op.tokenCount - 1)) =
        .ok result := by
  rw [scan, if_neg ht, bind_eq_ok_iff] at h
  obtain ⟨op, hop, h⟩ := h
  by_cases hshort : rest.length + 1 < op.tokenCount
  · simp [hshort, throw, throwThe, MonadExceptOf.throw, bind, Except.bind] at h
  · rw [if_neg hshort] at h
    exact ⟨op, hop, Nat.not_lt.mp hshort, h⟩

/-- What the label pass accepts begins with an instruction once the declarations are dropped. -/
theorem startsInstruction_kept {stream : List Token}
    (h : table.scan address stream = .ok result) : StartsInstruction (kept stream) := by
  induction stream generalizing table address with
  | nil =>
      intro t ht
      cases ht
  | cons t rest ih =>
      by_cases ht : t.role = .declaration
      · obtain ⟨_, _, _, hrest⟩ := exists_of_scan_declaration ht h
        rw [kept_cons_of_declaration ht]
        exact ih hrest
      · obtain ⟨op, hop, _⟩ := exists_of_scan_instruction ht h
        rw [kept_cons_of_ne ht]
        intro t' ht'
        exact Option.some.inj ht' ▸ ⟨op, (Opcode.ofWindow_eq_ok_iff.mp hop).1.symm⟩

/-- A text without a sigil is resolved to itself. -/
theorem eq_of_resolves {t' : Token} (h : table.Resolves t t') (ht : Token.IsPlain t.text) :
    t = t' := by
  simpa [Resolves, Token.role_eq_plain ht] using h

theorem startsInstruction_of_resolves {stream resolved : List Token}
    (hstream : StartsInstruction stream) (h : List.Forall₂ table.Resolves stream resolved) :
    StartsInstruction resolved := by
  cases h with
  | nil => exact hstream
  | @cons t t' _ _ hfirst _ =>
      obtain ⟨op, hop⟩ := hstream t rfl
      have heq : t = t' := eq_of_resolves hfirst (hop ▸ Token.isPlain_mnemonic op)
      intro u hu
      exact Option.some.inj hu ▸ heq ▸ ⟨op, hop⟩

end SymbolTable

/-- The operands of an instruction end before the next mnemonic. -/
theorem length_operandTokens_le {t : Token} {operands rest : List Token}
    {src : Instruction String} (hrest : StartsInstruction rest)
    (hvalues : ∀ s ∈ src.values, Word.IsNumeral s)
    (hspells : Window.Spells ⟨t, operands ++ rest⟩ (src.tokens id)) :
    (src.operandTokens id).length ≤ operands.length := by
  by_contra hlong
  have hlong := Nat.lt_of_not_le hlong
  have hprefix : src.operandTokens id <+: (operands ++ rest).map Token.text :=
    (Window.spells_cons_iff.mp hspells).2
  have hget := List.prefix_iff_getElem?.mp hprefix operands.length hlong
  rw [List.getElem?_map, List.getElem?_append_right (Nat.le_refl _), Nat.sub_self,
    ← List.head?_eq_getElem?, Option.map_eq_some_iff] at hget
  obtain ⟨first, hfirst, htext⟩ := hget
  apply not_isMnemonic_of_mem_operandTokens hvalues (List.getElem_mem hlong)
  exact htext ▸ hrest first hfirst

/-- Of two opcodes with one mnemonic the longer one has a bracket in its look-ahead. -/
theorem Opcode.of_tokenCount_lt {op op' : Opcode} (hmnemonic : op.mnemonic = op'.mnemonic)
    (hlt : op'.tokenCount < op.tokenCount) :
    (op = storeRegister ∨ op = storeValue ∨ op = load) ∧ (op' = copy ∨ op' = set) := by
  cases op <;> cases op' <;> revert hmnemonic hlt <;> decide

/-- A short `mov` has no bracket where a longer one has it. -/
theorem text?_ne_bracket {w : Window} {src : Instruction String}
    (hop : src.opcode = .copy ∨ src.opcode = .set)
    (hvalues : ∀ s ∈ src.values, Word.IsNumeral s) (hspells : w.Spells (src.tokens id)) :
    w.text? 0 ≠ some "[" ∧ w.text? 1 ≠ some "[" ∧ w.text? 2 ≠ some "[" := by
  have hname : ∀ r : Register, r.name ≠ "[" := fun r h =>
    name_notMem_marks r (h ▸ by decide)
  have hfollows := (Window.spells_cons_iff.mp hspells).2
  cases src <;> simp [Instruction.opcode] at hop
  case copy r source =>
    simp only [Instruction.operandTokens, Window.follows_cons_iff] at hfollows
    obtain ⟨htarget, hcomma, hsource, -⟩ := hfollows
    simp [htarget, hcomma, hsource, hname]
  case set r s =>
    simp only [Instruction.operandTokens, Window.follows_cons_iff, id_eq] at hfollows
    obtain ⟨htarget, hcomma, hvalue, -⟩ := hfollows
    have hs : s ≠ "[" := by
      intro hs
      exact not_isNumeral_mark (s := "[") (by decide)
        (hs ▸ hvalues s (by simp [Instruction.values]))
    simp [htarget, hcomma, hvalue, hname, hs]

namespace SymbolTable

variable {table : SymbolTable}

/-- A token without a sigil stays where it is as long as nothing is dropped before it. -/
theorem exists_of_resolves_cons {t : Token} {rest resolved : List Token}
    (ht : Token.IsPlain t.text) (h : List.Forall₂ table.Resolves (kept (t :: rest)) resolved) :
    ∃ resolved', resolved = t :: resolved' ∧
      List.Forall₂ table.Resolves (kept rest) resolved' := by
  rw [kept_cons_of_ne (by simp [Token.role_eq_plain ht]), List.forall₂_cons_left_iff] at h
  obtain ⟨t', resolved', hfirst, hrest, rfl⟩ := h
  exact ⟨resolved', by rw [eq_of_resolves hfirst ht], hrest⟩

end SymbolTable

/-- Dropping declarations from the operands of a long `mov` makes no short one of it. -/
theorem not_short_move {table : SymbolTable} {op : Opcode} {t : Token}
    {operands rest operands' rest' : List Token} {src : Instruction String}
    (hop : op = .storeRegister ∨ op = .storeValue ∨ op = .load)
    (hsuits : op.Suits ⟨t, operands ++ rest⟩) (hlength : operands.length + 1 = op.tokenCount)
    (hoperands : List.Forall₂ table.Resolves (SymbolTable.kept operands) operands')
    (hsrc : src.opcode = .copy ∨ src.opcode = .set)
    (hvalues : ∀ s ∈ src.values, Word.IsNumeral s)
    (hspells : Window.Spells ⟨t, operands' ++ rest'⟩ (src.tokens id)) : False := by
  obtain ⟨hzero, hone, htwo⟩ := text?_ne_bracket hsrc hvalues hspells
  have hbracket : Token.IsPlain "[" := by decide
  rcases hop with rfl | rfl | rfl
  case inr.inr =>
    obtain ⟨⟨name, htarget, r, -, hr⟩, hopen⟩ := hsuits
    rcases operands with _ | ⟨a, _ | ⟨x, _ | ⟨b, tail⟩⟩⟩ <;> try cases hlength
    have ha : a.text = r.name := by simpa [Window.text?, ← hr] using htarget
    have hb : b.text = "[" := by simpa [Window.text?] using hopen
    obtain ⟨_, rfl, hrest⟩ :=
      SymbolTable.exists_of_resolves_cons (ha ▸ Token.isPlain_name r) hoperands
    by_cases hx : x.role = .declaration
    · rw [SymbolTable.kept_cons_of_declaration hx] at hrest
      obtain ⟨_, rfl, -⟩ := SymbolTable.exists_of_resolves_cons (hb ▸ hbracket) hrest
      exact hone (by simp [Window.text?, hb])
    · rw [SymbolTable.kept_cons_of_ne hx, List.forall₂_cons_left_iff] at hrest
      obtain ⟨x', _, -, hrest, rfl⟩ := hrest
      obtain ⟨_, rfl, -⟩ := SymbolTable.exists_of_resolves_cons (hb ▸ hbracket) hrest
      exact htwo (by simp [Window.text?, hb])
  all_goals
    rcases operands with _ | ⟨b, tail⟩
    · cases hlength
    have hb : b.text = "[" := by simpa [Window.text?] using hsuits.1
    obtain ⟨_, rfl, -⟩ := SymbolTable.exists_of_resolves_cons (hb ▸ hbracket) hoperands
    exact hzero (by simp [Window.text?, hb])

/-- Where the label pass and the reader both accept an instruction, they agree on its
tokens, and none of them is a declaration. -/
theorem kept_operands {table : SymbolTable} {op : Opcode} {t : Token}
    {operands rest operands' rest' : List Token} {src : Instruction String}
    (hop : Opcode.ofWindow ⟨t, operands ++ rest⟩ = .ok op)
    (hlength : operands.length + 1 = op.tokenCount)
    (hoperands : List.Forall₂ table.Resolves (SymbolTable.kept operands) operands')
    (hrest : StartsInstruction rest')
    (hvalues : ∀ s ∈ src.values, Word.IsNumeral s)
    (hspells : Window.Spells ⟨t, operands' ++ rest'⟩ (src.tokens id)) :
    SymbolTable.kept operands = operands ∧ operands'.map Token.text = src.operandTokens id := by
  obtain ⟨hmnemonic, hsuits⟩ := Opcode.ofWindow_eq_ok_iff.mp hop
  obtain ⟨hmnemonic', hfollows⟩ := Window.spells_cons_iff.mp hspells
  have hread := length_operandTokens_le hrest hvalues hspells
  have hcount := src.length_operandTokens id
  have hkept : (SymbolTable.kept operands).length ≤ operands.length := List.length_filter_le _ _
  have hsame := hoperands.length_eq
  have hnot : ¬ src.opcode.tokenCount < op.tokenCount := by
    intro hlt
    obtain ⟨hlong, hshort⟩ := Opcode.of_tokenCount_lt (hmnemonic.symm.trans hmnemonic') hlt
    exact not_short_move hlong hsuits hlength hoperands hshort hvalues hspells
  have hall : (SymbolTable.kept operands).length = operands.length := by
    unfold Instruction.tokenCount at hcount
    omega
  have hprefix : src.operandTokens id <+: operands'.map Token.text ++ rest'.map Token.text := by
    simpa [Window.Follows] using hfollows
  have hlen : (operands'.map Token.text).length = (src.operandTokens id).length := by
    unfold Instruction.tokenCount at hcount
    rw [List.length_map]
    omega
  constructor
  · apply List.filter_eq_self.mpr
    exact List.length_filter_eq_length_iff.mp hall
  · have hshorter : src.operandTokens id <+: operands'.map Token.text :=
      List.prefix_of_prefix_length_le hprefix (List.prefix_append _ _) hlen.ge
    exact (hshorter.eq_of_length hlen.symm).symm

/-! ## Reading a whole source text -/

namespace SymbolTable

variable {final : SymbolTable}

/-- All passes accept a stream whose references are resolved by the given table. -/
structure Accepts (final : SymbolTable) (stream : List Token) : Prop where
  scan : ∃ (table : SymbolTable) (address : Word) (result : SymbolTable × Word),
    table.scan address stream = .ok result
  read : ∃ (resolved : List Token) (capacity used : Nat) (code : List (Instruction Word)),
    List.Forall₂ final.Resolves (kept stream) resolved ∧
      Instruction.listOfTokens capacity used resolved = .ok code

theorem exists_of_accepts_declaration {t : Token} {rest : List Token}
    (ht : t.role = .declaration) (h : final.Accepts (t :: rest)) :
    (∃ name, t.text = ":" ++ name ∧ name ≠ "") ∧ final.Accepts rest := by
  obtain ⟨table, address, result, hscan⟩ := h.scan
  obtain ⟨resolved, capacity, used, code, hresolve, hread⟩ := h.read
  obtain ⟨name, table', hname, hrest⟩ := exists_of_scan_declaration ht hscan
  rw [kept_cons_of_declaration ht] at hresolve
  exact ⟨⟨name, Token.text_eq_colon ht hname⟩, ⟨_, _, _, hrest⟩, ⟨_, _, _, _, hresolve, hread⟩⟩

theorem exists_of_resolves_append {stream rest resolved : List Token}
    (h : List.Forall₂ final.Resolves (kept (stream ++ rest)) resolved) :
    ∃ resolved' rest', resolved = resolved' ++ rest' ∧
      List.Forall₂ final.Resolves (kept stream) resolved' ∧
      List.Forall₂ final.Resolves (kept rest) rest' := by
  rw [kept_append] at h
  refine ⟨resolved.take (kept stream).length, resolved.drop (kept stream).length,
    (List.take_append_drop _ _).symm, ?_, ?_⟩
  · simpa using List.forall₂_take (kept stream).length h
  · simpa using List.forall₂_drop (kept stream).length h

/-- A stream that all passes accept begins with an instruction of the grammar, if it
does not begin with a declaration. -/
theorem exists_of_accepts_instruction {t : Token} {rest : List Token}
    (ht : t.role ≠ .declaration) (h : final.Accepts (t :: rest)) :
    ∃ ins : Instruction Operand, (Item.instruction ins).WellFormed final.names ∧
      (t :: rest).map Token.text =
        ins.tokens Operand.text ++ (rest.drop (ins.tokenCount - 1)).map Token.text ∧
      final.Accepts (rest.drop (ins.tokenCount - 1)) := by
  obtain ⟨table, address, result, hscan⟩ := h.scan
  obtain ⟨resolved, capacity, used, code, hresolve, hread⟩ := h.read
  obtain ⟨op, hop, hlong, hscan⟩ := exists_of_scan_instruction ht hscan
  obtain ⟨hmnemonic, -⟩ := Opcode.ofWindow_eq_ok_iff.mp hop
  have hpos := op.tokenCount_pos
  -- The label pass takes `operands` for the operands of the instruction.
  obtain ⟨operands, rest, rfl, hlength⟩ :
      ∃ operands rest', rest = operands ++ rest' ∧ operands.length + 1 = op.tokenCount := by
    refine ⟨rest.take (op.tokenCount - 1), rest.drop (op.tokenCount - 1),
      (List.take_append_drop _ _).symm, ?_⟩
    rw [List.length_take]
    omega
  rw [← hlength, Nat.add_sub_cancel, List.drop_left] at hscan
  obtain ⟨tail, rfl, htail⟩ :=
    exists_of_resolves_cons (hmnemonic ▸ Token.isPlain_mnemonic op) hresolve
  obtain ⟨operands', rest', rfl, hoperands, hrest⟩ := exists_of_resolves_append htail
  obtain ⟨ins', code', hins', -, hread, -⟩ := Instruction.listOfTokens_cons_eq_ok_iff.mp hread
  obtain ⟨src, hnamed, hvalues, hspells, hmap⟩ := Instruction.ofWindow_eq_ok_iff.mp hins'
  obtain ⟨hkept, htexts⟩ := kept_operands hop hlength hoperands
    (startsInstruction_of_resolves (startsInstruction_kept hscan) hrest) hvalues hspells
  rw [hkept] at hoperands
  obtain ⟨ins, hsource, hopcode, hwf⟩ := exists_source_operands hnamed hvalues hoperands htexts
  have hcount : ins.tokenCount - 1 = operands.length := by
    rw [← ins.length_operandTokens Operand.text, ← hsource]
    simp
  have hcount' : ins'.tokenCount - 1 = operands'.length := by
    rw [← hmap, Instruction.tokenCount_map, ← src.length_operandTokens id, ← htexts]
    simp
  have hfirst : t.text = ins.opcode.mnemonic :=
    (Window.spells_cons_iff.mp hspells).1.trans (congrArg Opcode.mnemonic hopcode.symm)
  rw [hcount', List.drop_left] at hread
  refine ⟨ins, hwf, ?_, ?_⟩
  · rw [hcount, List.drop_left, List.map_cons, List.map_append, hsource, hfirst]
    rfl
  · rw [hcount, List.drop_left]
    exact ⟨⟨_, _, _, hscan⟩, ⟨_, _, _, _, hrest, hread⟩⟩

/-- A stream that all passes accept spells items of the grammar. -/
theorem exists_outline_of_accepts {stream : List Token} (h : final.Accepts stream) :
    ∃ outline : Outline, stream.map Token.text = outline.tokens ∧
      ∀ item ∈ outline, item.WellFormed final.names := by
  induction hlength : stream.length using Nat.strong_induction_on generalizing stream with
  | h n ih =>
      subst hlength
      cases stream with
      | nil => exact ⟨[], rfl, by simp⟩
      | cons t rest =>
          by_cases ht : t.role = .declaration
          · obtain ⟨⟨name, htext, hne⟩, hrest⟩ := exists_of_accepts_declaration ht h
            obtain ⟨outline, htexts, hwf⟩ := ih rest.length (by simp) hrest rfl
            refine ⟨.declaration name :: outline, ?_, List.forall_mem_cons.mpr ⟨hne, hwf⟩⟩
            rw [List.map_cons, htext, htexts, Outline.tokens_declaration]
          · obtain ⟨ins, hins, htext, hrest⟩ := exists_of_accepts_instruction ht h
            obtain ⟨outline, htexts, hwf⟩ :=
              ih (rest.drop (ins.tokenCount - 1)).length (by simp) hrest rfl
            refine ⟨.instruction ins :: outline, ?_, List.forall_mem_cons.mpr ⟨hins, hwf⟩⟩
            rw [htext, htexts, Outline.tokens_instruction]

end SymbolTable

end WordMachine
