import Mathlib
import WordMachine.Proofs.Grammar

/-!
# Addresses of labels

The label pass counts words without reading operands, and the words themselves are
written by another pass over another stream.  Both counts are those of the outline, so
a label stands for the place where the next instruction of the source is found.
-/

namespace WordMachine

namespace Outline

theorem labelsFrom_append (address index : Nat) (outline rest : Outline) :
    labelsFrom address index (outline ++ rest) = labelsFrom address index outline ++
      labelsFrom (address + outline.wordCount) (index + outline.tokens.length) rest := by
  induction outline generalizing address index with
  | nil => rfl
  | cons item outline ih =>
      cases item with
      | declaration name =>
          rw [List.cons_append, labelsFrom, labelsFrom, ih]
          simp [Nat.add_assoc, Nat.add_comm 1]
      | instruction ins =>
          rw [List.cons_append, labelsFrom, labelsFrom, ih]
          simp [Nat.add_assoc]

/-- Each label of an outline is declared somewhere in it, and its address and index are those of
the part in front. -/
theorem mem_labelsFrom {outline : Outline} {address index : Nat} {l : Label}
    (h : l ∈ labelsFrom address index outline) :
    ∃ before after : Outline, outline = before ++ .declaration l.name :: after ∧
      l.address = UInt64.ofNat (address + before.wordCount) ∧
      l.index = index + before.tokens.length := by
  induction outline generalizing address index with
  | nil => simp [labelsFrom] at h
  | cons item rest ih =>
      cases item with
      | declaration name =>
          rcases List.mem_cons.mp h with rfl | h
          · exact ⟨[], rest, rfl, rfl, rfl⟩
          · obtain ⟨before, after, rfl, haddress, hindex⟩ := ih h
            refine ⟨.declaration name :: before, after, rfl, ?_, ?_⟩
            · rw [haddress, wordCount_declaration]
            · simp [hindex, Nat.add_assoc, Nat.add_comm 1]
      | instruction ins =>
          obtain ⟨before, after, rfl, haddress, hindex⟩ := ih h
          refine ⟨.instruction ins :: before, after, rfl, ?_, ?_⟩
          · rw [haddress, wordCount_instruction, Nat.add_assoc]
          · simp [hindex, Nat.add_assoc]

/-- Labels are in the order of their declarations, and those with nothing between them
share an address. -/
theorem pairwise_labelsFrom {outline : Outline} {address : Nat}
    (hfits : address + outline.wordCount < Word.modulus) (index : Nat) :
    (labelsFrom address index outline).Pairwise fun l l' =>
      l.index < l'.index ∧ l.address ≤ l'.address ∧
        (l'.index = l.index + 1 → l'.address = l.address) := by
  induction outline generalizing address index with
  | nil => exact .nil
  | cons item rest ih =>
      cases item with
      | instruction ins =>
          rw [wordCount_instruction, ← Nat.add_assoc] at hfits
          exact ih hfits _
      | declaration name =>
          rw [wordCount_declaration] at hfits
          refine .cons ?_ (ih hfits (index + 1))
          intro l hl
          obtain ⟨before, after, rfl, haddress, hindex⟩ := mem_labelsFrom hl
          rw [wordCount_append] at hfits
          refine ⟨by simp only; omega, ?_, ?_⟩
          · rw [haddress, UInt64.le_iff_toNat_le, Word.toNat_ofNat (by omega),
              Word.toNat_ofNat (by omega)]
            exact Nat.le_add_right _ _
          · intro hnext
            have hempty : before.tokens.length = 0 := by
              simp only at hnext
              omega
            cases before with
            | nil => exact haddress
            | cons first tail =>
                have hpos := first.length_tokens_pos
                simp only [tokens, List.flatMap_cons, List.length_append] at hempty
                omega

/-- The labels are the declaration tokens of the source. -/
theorem filter_numbered_tokens {names : List String} {outline : Outline}
    (h : ∀ item ∈ outline, item.WellFormed names) (address index : Nat) :
    (Token.numbered index outline.tokens).filter (fun t => t.role = .declaration) =
      (labelsFrom address index outline).map fun l => ⟨":" ++ l.name, l.index⟩ := by
  induction outline generalizing address index with
  | nil => rfl
  | cons item rest ih =>
      obtain ⟨hitem, hrest⟩ := List.forall_mem_cons.mp h
      cases item with
      | declaration name => simp [Token.numbered, labelsFrom, ih hrest address (index + 1)]
      | instruction ins =>
          have hnone : (Token.numbered index (ins.tokens Operand.text)).filter
              (fun t => t.role = .declaration) = [] := by
            rw [List.filter_eq_nil_iff]
            intro t ht
            have htext : t.text ∈ ins.tokens Operand.text := by
              rw [← Token.map_text_numbered index (ins.tokens Operand.text)]
              exact List.mem_map_of_mem ht
            simpa using Item.role_ne_declaration hitem htext t.index
          rw [tokens_instruction, Token.numbered_append, List.filter_append, hnone,
            List.nil_append, Instruction.length_tokens, labelsFrom,
            ih hrest (address + ins.wordCount)]

/-- The words of an instruction stand in memory at the address that the items before it
end at. -/
theorem encode_prefix_memory {outline before after : Outline} {ins : Instruction Operand}
    (hsplit : outline = before ++ .instruction ins :: after) (limits : Limits) :
    (ins.map outline.word).encode <+:
      (outline.program limits).machine.memory.toList.drop before.wordCount := by
  have hget : outline.code[before.code.length]? = some ins := by
    rw [hsplit, getElem?_code_append]
    rfl
  have hoffset : outline.offset before.code.length = before.wordCount := by
    rw [hsplit, offset_append]
  rw [toList_memory_program, ← hoffset]
  exact (encode_prefix_drop hget).trans ((List.prefix_append _ _).drop _)

end Outline

namespace SymbolTable

/-- The word that an operand stands for, given the addresses of a table. -/
def word (table : SymbolTable) : Operand → Word
  | .literal digits => Word.ofNumeral digits
  | .reference name => (table.address? name).getD 0

theorem address?_of_mem {table : SymbolTable} (hnames : table.names.Nodup) {l : Label}
    (hl : l ∈ table.labels) : table.address? l.name = some l.address := by
  obtain ⟨l', hl'⟩ : ∃ l', table.find? l.name = some l' := by
    rw [← Option.isSome_iff_exists, find?, List.find?_isSome]
    exact ⟨l, hl, beq_self_eq_true l.name⟩
  have hname : l'.name = l.name := by simpa using List.find?_some hl'
  have heq : l' = l := List.inj_on_of_nodup_map hnames (List.mem_of_find?_eq_some hl') hl hname
  rw [address?, hl', heq]
  rfl

/-- The table gives an operand the word that it has in memory. -/
theorem word_table {outline : Outline} {v : Operand} (hv : v.WellFormed outline.names) :
    outline.table.word v = outline.word v := by
  cases v with
  | literal digits => rfl
  | reference name =>
      rw [word, Outline.address?_table hv.2]
      rfl

end SymbolTable

/-- The table and the outline have the same words for the operands of the program. -/
theorem Outline.WellFormed.map_word_table {outline : Outline} (hwf : outline.WellFormed)
    {ins : Instruction Operand} (hins : ins ∈ outline.code) :
    ins.map outline.table.word = ins.map outline.word :=
  Instruction.map_congr fun v hv => SymbolTable.word_table ((hwf.instruction hins).2 v hv)

/-- The label table, the words in memory and the source text agree on all addresses. -/
structure Program.AddressesAgree (p : Program) (source : String) (outline : Outline) :
    Prop where
  /-- There is one label for each declaration of the source. -/
  declarations : p.labels.labels.map (fun l => ⟨":" ++ l.name, l.index⟩) =
    (Source.tokens source).filter fun t => t.role = .declaration
  names : p.labels.names.Nodup
  ordered : p.labels.labels.Pairwise fun l l' => l.index < l'.index ∧ l.address ≤ l'.address
  /-- Declarations with nothing between them share an address. -/
  shared : ∀ l ∈ p.labels.labels, ∀ l' ∈ p.labels.labels,
    l'.index = l.index + 1 → l'.address = l.address
  /-- The label pass ends where the program ends. -/
  last : ∃ last, SymbolTable.scan {} 0 (Source.tokens source) = .ok (p.labels, last) ∧
    last.toNat = p.machine.programLength
  /-- A label counts the words in front of it.  The next instruction is found there. -/
  label : ∀ (before after : Outline) (name : String),
    outline = before ++ .declaration name :: after →
      ∃ l ∈ p.labels.labels, l.name = name ∧ l.index = before.tokens.length ∧
        l.address.toNat = before.wordCount ∧
        match after.code.head? with
        | some ins => p.machine.memory.read? l.address = some ins.opcode.id
        | none => l.address.toNat = p.machine.programLength
  /-- A reference is to a label and stands for its address. -/
  reference : ∀ ins ∈ outline.code, ∀ name, .reference name ∈ ins.values →
    ∃ l ∈ p.labels.labels, l.name = name ∧ p.labels.word (.reference name) = l.address
  /-- Each instruction stands behind those before it, with its references replaced. -/
  encoded : ∀ (before after : Outline) (ins : Instruction Operand),
    outline = before ++ .instruction ins :: after →
      (ins.map p.labels.word).encode <+: p.machine.memory.toList.drop before.wordCount

namespace Outline

theorem exists_of_head?_code {outline : Outline} {ins : Instruction Operand}
    (h : outline.code.head? = some ins) :
    ∃ before after : Outline, outline = before ++ .instruction ins :: after ∧
      before.wordCount = 0 := by
  induction outline with
  | nil => simp at h
  | cons item rest ih =>
      cases item with
      | declaration name =>
          obtain ⟨before, after, rfl, hcount⟩ := ih h
          exact ⟨.declaration name :: before, after, rfl, by simpa using hcount⟩
      | instruction first =>
          cases h
          exact ⟨[], rest, rfl, rfl⟩

theorem wordCount_eq_zero_of_head?_code {outline : Outline} (h : outline.code.head? = none) :
    outline.wordCount = 0 := by
  rw [wordCount_eq_sum_code, List.head?_eq_none_iff.mp h]
  rfl

variable {outline : Outline} {source : String} {limits : Limits}

/-- The memory at the address of a declaration. -/
theorem next_instruction (limits : Limits) (hsize : outline.wordCount < Word.modulus)
    {before after : Outline} {name : String}
    (hsplit : outline = before ++ .declaration name :: after) :
    match after.code.head? with
    | some ins => (outline.program limits).machine.memory.read?
        (UInt64.ofNat before.wordCount) = some ins.opcode.id
    | none => before.wordCount = outline.wordCount := by
  have hcount : outline.wordCount = before.wordCount + after.wordCount := by
    rw [hsplit, wordCount_append, wordCount_declaration]
  split
  · next ins hhead =>
      obtain ⟨between, after', rfl, hbetween⟩ := exists_of_head?_code hhead
      have hsplit' : outline = (before ++ .declaration name :: between) ++
          .instruction ins :: after' := by simpa using hsplit
      have hprefix := encode_prefix_memory hsplit' limits
      rw [wordCount_append, wordCount_declaration, hbetween, Nat.add_zero] at hprefix
      have hget := List.prefix_iff_getElem?.mp hprefix 0 (by simp [Instruction.encode])
      rw [List.getElem?_drop, Nat.add_zero] at hget
      rw [Memory.read?, Word.toNat_ofNat (by omega), ← Array.getElem?_toList, hget]
      simp [Instruction.encode]
  · next hhead =>
      rw [hcount, wordCount_eq_zero_of_head?_code hhead, Nat.add_zero]

/-- The program of a well-formed outline has the addresses of the outline. -/
theorem addressesAgree (hspells : outline.Spells source) (hwf : outline.WellFormed)
    (hsize : outline.wordCount < Word.modulus) :
    (outline.program limits).AddressesAgree source outline where
  declarations := by
    rw [hspells.tokens_eq]
    exact (filter_numbered_tokens hwf.items 0 0).symm
  names := (SymbolTable.names_table outline).symm ▸ hwf.nodup
  ordered :=
    (pairwise_labelsFrom (by rwa [Nat.zero_add]) 0).imp fun h => ⟨h.1, h.2.1⟩
  shared := by
    have hpairs := (pairwise_labelsFrom (by rwa [Nat.zero_add]) 0 : outline.table.labels.Pairwise _)
    have hforward := hpairs.imp fun h => h.2.2
    -- In the other order two labels are never consecutive.
    have hbackward : outline.table.labels.Pairwise fun l l' =>
        l.index = l'.index + 1 → l.address = l'.address :=
      hpairs.imp fun h heq => absurd heq (by omega)
    intro l hl l' hl'
    exact List.Pairwise.forall_of_forall_of_flip (fun _ _ _ => rfl) hforward hbackward hl hl'
  last := by
    refine ⟨UInt64.ofNat outline.wordCount, ?_, ?_⟩
    · rw [hspells.tokens_eq]
      exact hwf.scan_eq
    · rw [Word.toNat_ofNat hsize, programLength_program]
  label := by
    intro before after name hsplit
    have hmem : (⟨name, UInt64.ofNat before.wordCount, before.tokens.length⟩ : Label) ∈
        outline.table.labels := by
      rw [table, hsplit, labelsFrom_append, Nat.zero_add, Nat.zero_add]
      exact List.mem_append_right _ (List.mem_cons_self)
    have hbefore : (UInt64.ofNat before.wordCount).toNat = before.wordCount := by
      apply Word.toNat_ofNat
      rw [hsplit, wordCount_append] at hsize
      omega
    refine ⟨_, hmem, rfl, rfl, hbefore, ?_⟩
    have hnext := next_instruction limits hsize hsplit
    cases hhead : after.code.head? with
    | some ins => simpa [hhead] using hnext
    | none => simpa [hhead, hbefore, programLength_program] using hnext
  reference := by
    intro ins hins name hname
    obtain ⟨_, hdeclared⟩ := (hwf.instruction hins).2 _ hname
    have hnames : name ∈ outline.table.labels.map Label.name := by
      rwa [← SymbolTable.names, SymbolTable.names_table]
    obtain ⟨l, hl, rfl⟩ := List.mem_map.mp hnames
    have hnodup : outline.table.names.Nodup := (SymbolTable.names_table outline).symm ▸ hwf.nodup
    refine ⟨l, hl, rfl, ?_⟩
    rw [SymbolTable.word]
    change (outline.table.address? l.name).getD 0 = l.address
    rw [SymbolTable.address?_of_mem hnodup hl]
    rfl
  encoded := by
    intro before after ins hsplit
    have hins : ins ∈ outline.code :=
      mem_code_iff.mpr (hsplit ▸ List.mem_append_right _ List.mem_cons_self)
    change (ins.map outline.table.word).encode <+: _
    rw [hwf.map_word_table hins]
    exact encode_prefix_memory hsplit limits

end Outline

/-- The label pass and the pass that writes the words agree on the addresses of every
program. -/
theorem Program.addresses_agree {source : String} {limits : Limits} {p : Program}
    (hsize : limits.memorySize < Word.modulus)
    (h : Program.ofSource source limits = .ok p) :
    ∃ outline : Outline, outline.Spells source ∧ outline.WellFormed ∧
      p.AddressesAgree source outline := by
  obtain ⟨outline, hspells, hwf, hfits, rfl⟩ := ofSource_eq_ok_iff.mp h
  exact ⟨outline, hspells, hwf,
    Outline.addressesAgree hspells hwf (Nat.lt_of_le_of_lt hfits hsize)⟩

/-- The label table of the loop agrees with its words. -/
theorem Program.addresses_agree_loop :
    ∃ outline : Outline, outline.Spells Source.loop ∧ outline.WellFormed ∧
      (Outline.loop.program { memorySize := 16 }).AddressesAgree Source.loop outline :=
  Program.addresses_agree (by decide) Outline.loop_ofSource

end WordMachine
