import Mathlib
import WordMachine.Proofs.Acceptance
import WordMachine.Proofs.Loading

/-!
# The grammar of source texts

A source text is a program exactly if it spells a well-formed outline whose words fit
in memory, and the program is then the one that the outline describes.
-/

namespace WordMachine

theorem SymbolTable.names_table (outline : Outline) : outline.table.names = outline.names :=
  Outline.names_labelsFrom 0 0 outline

/-- A program spells a well-formed outline. -/
theorem Program.exists_outline {source : String} {limits : Limits} {p : Program}
    (h : Program.ofSource source limits = .ok p) :
    ∃ outline : Outline, outline.Spells source ∧ outline.WellFormed := by
  simp only [Program.ofSource, Machine.ofTokens, bind_eq_ok_iff] at h
  obtain ⟨labels, hlabels, resolved, hresolve, machine, ⟨code, hread, -⟩, -⟩ := h
  obtain ⟨last, hscan⟩ : ∃ last, SymbolTable.scan {} 0 (Source.tokens source) =
      .ok (labels, last) := by
    unfold SymbolTable.ofTokens at hlabels
    cases hresult : SymbolTable.scan {} 0 (Source.tokens source) with
    | error e => simp [hresult, Except.map] at hlabels
    | ok result =>
        simp only [hresult, Except.map, Except.ok.injEq] at hlabels
        exact ⟨result.2, by rw [← hlabels]⟩
  have haccepts : labels.Accepts (Source.tokens source) :=
    ⟨⟨_, _, _, hscan⟩, ⟨_, _, _, _, SymbolTable.resolve_eq_ok_iff.mp hresolve, hread⟩⟩
  obtain ⟨outline, htexts, hitems⟩ := SymbolTable.exists_outline_of_accepts haccepts
  have hspells : outline.Spells source := htexts
  rw [hspells.tokens_eq] at hscan
  obtain ⟨hnodup, hresult⟩ := (Outline.scan_eq_ok_iff hitems).mp hscan
  have htable : outline.table = labels := congrArg Prod.fst hresult
  refine ⟨outline, hspells, ?_, hnodup⟩
  rwa [← htable, SymbolTable.names_table] at hitems

/-- The programs are the well-formed outlines that fit in memory. -/
theorem Program.ofSource_eq_ok_iff {source : String} {limits : Limits} {p : Program} :
    Program.ofSource source limits = .ok p ↔
      ∃ outline : Outline, outline.Spells source ∧ outline.WellFormed ∧
        outline.wordCount ≤ limits.memorySize ∧ outline.program limits = p := by
  constructor
  · intro h
    obtain ⟨outline, hspells, hwf⟩ := exists_outline h
    exact ⟨outline, hspells, hwf, (Outline.ofSource_eq_ok_iff_of_spells hspells hwf).mp h⟩
  · intro ⟨outline, hspells, hwf, hprogram⟩
    exact (Outline.ofSource_eq_ok_iff_of_spells hspells hwf).mpr hprogram

/-- None of the tokens of an instruction declares a label. -/
theorem Item.role_ne_declaration {names : List String} {ins : Instruction Operand}
    (h : (Item.instruction ins).WellFormed names) {s : String}
    (hs : s ∈ ins.tokens Operand.text) (index : Nat) :
    (⟨s, index⟩ : Token).role ≠ .declaration := by
  rcases List.mem_cons.mp hs with rfl | hs
  · exact Token.role_ne_declaration (Token.isPlain_mnemonic ins.opcode) index
  rcases Instruction.mem_operandTokens hs with hmark | ⟨r, _, rfl⟩ | ⟨v, hv, rfl⟩
  · exact Token.role_ne_declaration (Token.isPlain_of_mem_marks hmark) index
  · exact Token.role_ne_declaration (Token.isPlain_name r) index
  · have hwf := h.2 v hv
    cases v with
    | literal digits => exact Token.role_ne_declaration (Token.isPlain_of_isNumeral hwf) index
    | reference name =>
        rw [Operand.text, Token.role_stop]
        decide

/-- Two ways to read an instruction from the same texts find the same opcode. -/
theorem Item.opcode_eq {names names' : List String} {ins ins' : Instruction Operand}
    (h : (Item.instruction ins).WellFormed names) (h' : (Item.instruction ins').WellFormed names')
    {rest rest' : List String}
    (htexts : ins.tokens Operand.text ++ rest = ins'.tokens Operand.text ++ rest') :
    ins.opcode = ins'.opcode := by
  obtain ⟨following, hstream, -, -, hspells⟩ := ins.numbered_tokens Operand.text 0 rest
  obtain ⟨following', hstream', -, -, hspells'⟩ := ins'.numbered_tokens Operand.text 0 rest'
  rw [htexts, hstream'] at hstream
  obtain ⟨hfirst, hfollowing⟩ := List.cons.inj hstream
  rw [hfirst, hfollowing] at hspells'
  have hop := Item.opcode_of_spells h hspells
  rw [Item.opcode_of_spells h' hspells'] at hop
  exact (Except.ok.inj hop).symm

theorem Item.ne_mnemonic (name : String) (op : Opcode) : ":" ++ name ≠ op.mnemonic := by
  intro heq
  apply Token.role_ne_declaration (Token.isPlain_mnemonic op) 0
  rw [← heq, Token.role_colon]

/-- Two ways to read an item from the same texts take as many of them. -/
theorem Item.rest_eq {names names' : List String} {item item' : Item}
    (h : item.WellFormed names) (h' : item'.WellFormed names') {rest rest' : List String}
    (htexts : item.tokens ++ rest = item'.tokens ++ rest') : rest = rest' := by
  cases item with
  | declaration name =>
      cases item' with
      | declaration name' => exact (List.cons.inj htexts).2
      | instruction ins' => exact absurd (List.cons.inj htexts).1 (ne_mnemonic name _)
  | instruction ins =>
      cases item' with
      | declaration name' => exact absurd (List.cons.inj htexts).1.symm (ne_mnemonic name' _)
      | instruction ins' =>
          have hlength : (ins.tokens Operand.text).length = (ins'.tokens Operand.text).length := by
            rw [Instruction.length_tokens, Instruction.length_tokens, Instruction.tokenCount,
              Instruction.tokenCount, Item.opcode_eq h h' htexts]
          exact (List.append_inj htexts hlength).2

/-- Behind some items of a text that is read as an outline there are items again. -/
theorem Outline.exists_of_tokens_append {names names' : List String} {before outline : Outline}
    (hbefore : ∀ item ∈ before, item.WellFormed names)
    (houtline : ∀ item ∈ outline, item.WellFormed names') {rest : List String}
    (htexts : outline.tokens = before.tokens ++ rest) :
    ∃ outline' : Outline, (∀ item ∈ outline', item.WellFormed names') ∧
      outline'.tokens = rest := by
  induction before generalizing outline with
  | nil => exact ⟨outline, houtline, htexts⟩
  | cons item before ih =>
      obtain ⟨hitem, hbefore⟩ := List.forall_mem_cons.mp hbefore
      cases outline with
      | nil =>
          have hlength := congrArg List.length htexts
          have hpos := item.length_tokens_pos
          simp only [tokens, List.flatMap_nil, List.flatMap_cons, List.length_append,
            List.length_nil] at hlength
          omega
      | cons item' outline =>
          obtain ⟨hitem', houtline⟩ := List.forall_mem_cons.mp houtline
          apply ih hbefore houtline
          have hcons : item'.tokens ++ tokens outline =
              item.tokens ++ (tokens before ++ rest) := by
            rw [← List.append_assoc]
            exact htexts
          exact Item.rest_eq hitem' hitem hcons

/-- Somewhere behind whole items the label pass takes a declaration for an operand. -/
def Source.HidesDeclaration (source : String) : Prop :=
  ∃ (before : Outline) (names : List String) (t : Token) (operands rest : List Token)
      (op : Opcode),
    (∀ item ∈ before, item.WellFormed names) ∧
    (Source.tokens source).map Token.text =
      before.tokens ++ (t :: (operands ++ rest)).map Token.text ∧
    Opcode.ofWindow ⟨t, operands ++ rest⟩ = .ok op ∧ operands.length + 1 = op.tokenCount ∧
    ∃ d ∈ operands, d.role = .declaration

/-- No declaration hides among the operands of a grammatical text. -/
theorem Outline.WellFormed.not_hidesDeclaration {outline : Outline} {source : String}
    (hwf : outline.WellFormed) (hspells : outline.Spells source) :
    ¬ Source.HidesDeclaration source := by
  intro ⟨before, names, t, operands, rest, op, hbefore, htexts, hop, hlength, d, hd, hrole⟩
  obtain ⟨outline', houtline', htexts'⟩ :=
    exists_of_tokens_append hbefore hwf.items (hspells.symm.trans htexts)
  have hmnemonic := (Opcode.ofWindow_eq_ok_iff.mp hop).1
  cases outline' with
  | nil => cases htexts'
  | cons item rest' =>
      have hitem := (List.forall_mem_cons.mp houtline').1
      cases item with
      | declaration name =>
          have hfirst : ":" ++ name = t.text := (List.cons.inj htexts').1
          exact Item.ne_mnemonic name op (hfirst.trans hmnemonic)
      | instruction ins =>
          have hcons : ins.tokens Operand.text ++ tokens rest' =
              (t :: operands).map Token.text ++ rest.map Token.text := by
            rw [← List.map_append]
            exact htexts'
          have hspells' : Window.Spells ⟨t, operands ++ rest⟩ (ins.tokens Operand.text) := by
            rw [Window.Spells, ← List.map_cons, ← htexts']
            exact List.prefix_append _ _
          rw [Item.opcode_of_spells hitem hspells', Except.ok.injEq] at hop
          have hcount : (ins.tokens Operand.text).length =
              ((t :: operands).map Token.text).length := by
            rw [Instruction.length_tokens, Instruction.tokenCount, hop, ← hlength]
            simp
          have hmem : d.text ∈ ins.tokens Operand.text := by
            rw [(List.append_inj hcons hcount).1]
            exact List.mem_map_of_mem (List.mem_cons_of_mem t hd)
          exact Item.role_ne_declaration hitem hmem d.index hrole

/-- A loop that stores above its words and halts in the second round. -/
def Outline.loop : Outline :=
  [.declaration "again", .instruction (.cmp .eax (.literal "1")),
    .instruction (.je (.reference "done")),
    .instruction (.storeRegister .esp (.literal "0") .eax), .instruction (.inc .eax),
    .instruction (.jmp (.reference "again")), .declaration "done", .instruction .exit]

def Source.loop : String :=
  ":again cmp eax , 1 je .done mov [ esp + 0 ] , eax inc eax jmp .again :done exit"

theorem Outline.loop_spells : loop.Spells Source.loop := by
  decide +kernel

theorem Outline.loop_wellFormed : loop.WellFormed := by
  decide +kernel

theorem Outline.loop_ofSource :
    Program.ofSource Source.loop { memorySize := 16 } =
      .ok (loop.program { memorySize := 16 }) :=
  (ofSource_eq_ok_iff_of_spells loop_spells loop_wellFormed).mpr ⟨by decide +kernel, rfl⟩

/-- A source text is accepted if and only if it is grammatical and fits in memory.  The
machine then holds the image of the outline and is cleared otherwise, and no
instruction holds a declaration among its tokens.  A text that hides one there is not
accepted. -/
theorem Program.accepted_iff_grammatical (source : String) (limits : Limits) :
    ((∃ p, Program.ofSource source limits = .ok p) ↔
      ∃ outline : Outline, outline.Spells source ∧ outline.WellFormed ∧
        outline.wordCount ≤ limits.memorySize) ∧
    (∀ p, Program.ofSource source limits = .ok p →
      ∀ outline : Outline, outline.Spells source → outline.WellFormed →
        p.machine.memory.toList = Instruction.encodeAll outline.image ++
          List.replicate (limits.memorySize - outline.wordCount) 0 ∧
        p.machine.programLength = outline.wordCount ∧
        (∀ r, p.machine.get r =
          if r = .esp then UInt64.ofNat (limits.memorySize - 1) else 0) ∧
        p.machine.zeroFlag = false ∧
        ∀ ins ∈ outline.code, ∀ s ∈ ins.tokens Operand.text, ∀ index,
          (⟨s, index⟩ : Token).role ≠ .declaration) ∧
    (Source.HidesDeclaration source → ∀ p, Program.ofSource source limits ≠ .ok p) := by
  refine ⟨⟨?_, ?_⟩, ?_, ?_⟩
  · intro ⟨p, hp⟩
    obtain ⟨outline, hspells, hwf, hfits, -⟩ := ofSource_eq_ok_iff.mp hp
    exact ⟨outline, hspells, hwf, hfits⟩
  · intro ⟨outline, hspells, hwf, hfits⟩
    exact ⟨_, ofSource_eq_ok_iff.mpr ⟨outline, hspells, hwf, hfits, rfl⟩⟩
  · intro p hp outline hspells hwf
    obtain ⟨-, rfl⟩ := (Outline.ofSource_eq_ok_iff_of_spells hspells hwf).mp hp
    refine ⟨outline.toList_memory_program limits, outline.programLength_program limits,
      outline.get_program limits, rfl, ?_⟩
    intro ins hins s hs index
    exact Item.role_ne_declaration (hwf.items _ (Outline.mem_code_iff.mp hins)) hs index
  · intro hhides p hp
    obtain ⟨outline, hspells, hwf⟩ := exists_outline hp
    exact hwf.not_hidesDeclaration hspells hhides

/-- The loop is accepted, and a declaration among the operands of `cmp` is not. -/
theorem Program.accepted_iff_grammatical_loop :
    (∃ p, Program.ofSource Source.loop { memorySize := 16 } = .ok p ∧
      p.machine.memory.toList = [3, 0, 1, 1, 13, 6, 5, 0, 0, 11, 0, 2, 0, 12, 0, 0]) ∧
    ∀ p, Program.ofSource "cmp :a eax , 1" { memorySize := 16 } ≠ .ok p := by
  constructor
  · obtain ⟨p, hp⟩ := (Program.accepted_iff_grammatical Source.loop { memorySize := 16 }).1.mpr
      ⟨Outline.loop, Outline.loop_spells, Outline.loop_wellFormed, by decide +kernel⟩
    refine ⟨p, hp, ?_⟩
    rw [((Program.accepted_iff_grammatical _ _).2.1 p hp _ Outline.loop_spells
      Outline.loop_wellFormed).1]
    decide +kernel
  · apply (Program.accepted_iff_grammatical "cmp :a eax , 1" { memorySize := 16 }).2.2
    exact ⟨[], [], ⟨"cmp", 0⟩, [⟨":a", 1⟩, ⟨"eax", 2⟩, ⟨",", 3⟩], [⟨"1", 4⟩], .cmp, by simp,
      by decide +kernel, rfl, rfl, ⟨":a", 1⟩, by simp, by decide⟩

end WordMachine
