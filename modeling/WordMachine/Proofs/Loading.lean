import Mathlib
import WordMachine.Proofs.Passes

/-!
# Loading an outline

A source text that spells a well-formed outline is a program if the words of the outline
fit in memory.  The program is the one that the outline describes.
-/

namespace WordMachine

namespace Outline

theorem Spells.tokens_eq {outline : Outline} {source : String} (h : outline.Spells source) :
    Source.tokens source = Token.numbered 0 outline.tokens := by
  rw [Source.tokens_eq_numbered, h]

theorem space_notMem_tokens {outline : Outline} (hwf : outline.WellFormed)
    (hnames : ∀ name ∈ outline.names, ' ' ∉ name.toList) {s : String} (hs : s ∈ outline.tokens) :
    ' ' ∉ s.toList := by
  obtain ⟨item, hitem, hs⟩ := List.mem_flatMap.mp hs
  cases item with
  | declaration name =>
      have hname : name ∈ outline.names := List.mem_filterMap.mpr ⟨_, hitem, rfl⟩
      rw [List.mem_singleton.mp hs, String.toList_append]
      simpa using hnames name hname
  | instruction ins =>
      refine Instruction.blank_notMem_tokens (by decide) ?_ hs
      intro v hv
      have hv := (hwf.items _ hitem).2 v hv
      cases v with
      | literal digits => exact Word.blank_notMem_of_isNumeral (by decide) hv
      | reference name =>
          rw [Operand.text, String.toList_append]
          simpa using hnames name hv.2

/-- A well-formed outline is spelled by its items one behind the other, if there are names
that source text can hold. -/
theorem spells_intercalate {outline : Outline} (hne : outline ≠ []) (hwf : outline.WellFormed)
    (hnames : ∀ name ∈ outline.names, ' ' ∉ name.toList) :
    outline.Spells (" ".intercalate (outline.map fun item => " ".intercalate item.tokens)) := by
  have htexts : " ".intercalate (outline.map fun item => " ".intercalate item.tokens) =
      " ".intercalate outline.tokens :=
    calc " ".intercalate (outline.map fun item => " ".intercalate item.tokens)
        = " ".intercalate ((outline.map Item.tokens).map fun words => " ".intercalate words) := by
          rw [List.map_map]
          rfl
      _ = " ".intercalate (outline.map Item.tokens).flatten := by
          apply intercalate_flatten
          intro words hwords
          obtain ⟨item, _, rfl⟩ := List.mem_map.mp hwords
          exact List.ne_nil_of_length_pos item.length_tokens_pos
      _ = " ".intercalate outline.tokens := by rw [tokens, List.flatMap_def]
  rw [Spells, htexts]
  apply Source.map_text_tokens_intercalate
  · obtain ⟨item, rest, rfl⟩ := List.exists_cons_of_ne_nil hne
    exact List.append_ne_nil_of_left_ne_nil (List.ne_nil_of_length_pos item.length_tokens_pos) _
  · exact fun s => space_notMem_tokens hwf hnames

/-- The label pass over a source text accepts names that are all different. -/
theorem scan_eq_ok_iff {names : List String} {outline : Outline}
    (h : ∀ item ∈ outline, item.WellFormed names) {result : SymbolTable × Word} :
    SymbolTable.scan {} 0 (Token.numbered 0 outline.tokens) = .ok result ↔
      outline.names.Nodup ∧ (outline.table, UInt64.ofNat outline.wordCount) = result := by
  have hempty : ({} : SymbolTable).names.Nodup := List.nodup_nil
  rw [← Nat.zero_add outline.wordCount]
  exact SymbolTable.scan_tokens h hempty 0 0

/-- The label pass over a well-formed outline gives its table and ends at its size. -/
theorem WellFormed.scan_eq {outline : Outline} (h : outline.WellFormed) :
    SymbolTable.scan {} 0 (Token.numbered 0 outline.tokens) =
      .ok (outline.table, UInt64.ofNat outline.wordCount) :=
  (scan_eq_ok_iff h.items).mpr ⟨h.nodup, rfl⟩

section

variable {outline : Outline} {source : String} (hwf : outline.WellFormed)
variable (hspells : outline.Spells source)

include hwf hspells

/-- The label pass finds the labels of the outline. -/
theorem WellFormed.ofTokens_eq :
    SymbolTable.ofTokens (Source.tokens source) = .ok outline.table := by
  rw [SymbolTable.ofTokens, hspells.tokens_eq, hwf.scan_eq]
  rfl

/-- Behind the second pass stand the instructions with a numeral for each operand. -/
theorem WellFormed.exists_resolved :
    ∃ resolved, outline.table.resolve (Source.tokens source) = .ok resolved ∧
      resolved.map Token.text = (outline.resolved outline).flatMap (Instruction.tokens id) := by
  rw [hspells.tokens_eq]
  exact resolve_tokens outline (fun _ hname => address?_table hname) hwf.items 0

end

/-- A source text that spells a well-formed outline is a program if it fits in memory. -/
theorem ofSource_eq_ok_iff_of_spells {outline : Outline} {source : String} {limits : Limits}
    {p : Program} (hspells : outline.Spells source) (hwf : outline.WellFormed) :
    Program.ofSource source limits = .ok p ↔
      outline.wordCount ≤ limits.memorySize ∧ outline.program limits = p := by
  obtain ⟨resolved, hresolve, htexts⟩ := hwf.exists_resolved hspells
  have hread : ∀ code, Instruction.listOfTokens limits.memorySize 0 resolved = .ok code ↔
      outline.wordCount ≤ limits.memorySize ∧ outline.image = code := by
    intro code
    rw [Instruction.listOfTokens_eq_ok_iff (readable_resolved hwf.items outline)
      (Nat.zero_le _) htexts, sum_wordCount_resolved, Nat.zero_add, map_ofNumeral_resolved]
    rfl
  simp only [Program.ofSource, hwf.ofTokens_eq hspells, hresolve, ok_bind, Machine.ofTokens,
    bind_eq_ok_iff, pure_eq_ok_iff, hread]
  constructor
  · intro ⟨machine, ⟨code, ⟨hfits, himage⟩, hmachine⟩, hp⟩
    exact ⟨hfits, by rw [← hp, ← hmachine, ← himage, program]⟩
  · intro ⟨hfits, hp⟩
    exact ⟨_, ⟨_, ⟨hfits, rfl⟩, rfl⟩, hp⟩

variable {outline : Outline} {limits : Limits}

/-- The image stands at the start of memory, and zeros stand behind it. -/
theorem toList_memory_program (outline : Outline) (limits : Limits) :
    (outline.program limits).machine.memory.toList =
      Instruction.encodeAll outline.image ++
        List.replicate (limits.memorySize - outline.wordCount) 0 := by
  simp [program, Machine.loaded, Memory.ofWords, length_encodeAll_image]

theorem size_memory_program (hfits : outline.wordCount ≤ limits.memorySize) :
    (outline.program limits).machine.memory.size = limits.memorySize := by
  apply Memory.size_ofWords
  rwa [length_encodeAll_image]

theorem programLength_program (outline : Outline) (limits : Limits) :
    (outline.program limits).machine.programLength = outline.wordCount :=
  length_encodeAll_image outline

theorem get_program (outline : Outline) (limits : Limits) (r : Register) :
    (outline.program limits).machine.get r =
      if r = .esp then UInt64.ofNat (limits.memorySize - 1) else 0 := by
  cases r <;> rfl

end Outline

end WordMachine
