import Mathlib
import WordMachine.Proofs.Grammar

/-!
# Source texts without labels

Instructions with numerals in all their value slots are a source text of their own.  It is what
the labels of a text are resolved to, and it describes the same machine.  There is nothing left
to resolve in it.
-/

namespace WordMachine

/-- The text in which each reference of a source text is the numeral of its address and no
label is declared. -/
def Source.resolve (source : String) : Except SourceError String := do
  let stream := tokens source
  let labels ← SymbolTable.ofTokens stream
  return ofTokens (← labels.resolve stream)

namespace Outline

/-- Instructions with digits in their value slots as source text without labels. -/
def ofNumerals (src : List (Instruction String)) : Outline :=
  src.map fun ins => .instruction (ins.map .literal)

theorem code_ofNumerals (src : List (Instruction String)) :
    (ofNumerals src).code = src.map (Instruction.map .literal) := by
  induction src with
  | nil => rfl
  | cons ins rest ih =>
      rw [ofNumerals, List.map_cons, code_instruction, List.map_cons, ← ih]
      rfl

theorem tokens_ofNumerals (src : List (Instruction String)) :
    (ofNumerals src).tokens = src.flatMap (Instruction.tokens id) := by
  rw [tokens, ofNumerals, List.flatMap_map]
  congr 1
  funext ins
  exact Instruction.tokens_map _ _ ins

theorem labelsFrom_ofNumerals (address index : Nat) (src : List (Instruction String)) :
    labelsFrom address index (ofNumerals src) = [] := by
  induction src generalizing address index with
  | nil => rfl
  | cons ins rest ih => exact ih _ _

theorem names_ofNumerals (src : List (Instruction String)) : (ofNumerals src).names = [] := by
  rw [← names_labelsFrom 0 0, labelsFrom_ofNumerals, List.map_nil]

theorem table_ofNumerals (src : List (Instruction String)) : (ofNumerals src).table = {} :=
  congrArg SymbolTable.mk (labelsFrom_ofNumerals 0 0 src)

theorem image_ofNumerals (src : List (Instruction String)) :
    (ofNumerals src).image = src.map (Instruction.map Word.ofNumeral) := by
  rw [image, code_ofNumerals, List.map_map]
  congr 1
  funext ins
  exact Instruction.map_map _ _ ins

theorem wellFormed_ofNumerals {src : List (Instruction String)}
    (h : ∀ ins ∈ src, ins.Named ∧ ∀ s ∈ ins.values, Word.IsNumeral s) :
    (ofNumerals src).WellFormed where
  items := by
    intro item hitem
    obtain ⟨ins, hins, rfl⟩ := List.mem_map.mp hitem
    obtain ⟨hnamed, hvalues⟩ := h ins hins
    refine ⟨(Instruction.named_map _ ins).mpr hnamed, ?_⟩
    intro v hv
    rw [Instruction.values_map] at hv
    obtain ⟨s, hs, rfl⟩ := List.mem_map.mp hv
    exact hvalues s hs
  nodup := by
    rw [names_ofNumerals]
    exact List.nodup_nil

theorem spells_ofNumerals {src : List (Instruction String)} (hne : src ≠ [])
    (h : ∀ ins ∈ src, ins.Named ∧ ∀ s ∈ ins.values, Word.IsNumeral s) :
    (ofNumerals src).Spells (" ".intercalate (src.flatMap (Instruction.tokens id))) := by
  rw [Spells, ← tokens_ofNumerals]
  apply Source.map_text_tokens_intercalate
  · obtain ⟨ins, rest, rfl⟩ := List.exists_cons_of_ne_nil hne
    rw [tokens_ofNumerals]
    exact List.append_ne_nil_of_left_ne_nil (List.cons_ne_nil _ _) _
  · intro s hs
    refine space_notMem_tokens (wellFormed_ofNumerals h) ?_ hs
    rw [names_ofNumerals]
    exact List.forall_mem_nil _

variable {outline : Outline} {source : String} {limits : Limits}

/-- The labels of a text are resolved in all value slots of its outline. -/
theorem WellFormed.resolve_eq (hwf : outline.WellFormed) (hspells : outline.Spells source) :
    Source.resolve source =
      .ok (" ".intercalate ((outline.resolved outline).flatMap (Instruction.tokens id))) := by
  obtain ⟨stream, hstream, htexts⟩ := hwf.exists_resolved hspells
  rw [Source.resolve, hwf.ofTokens_eq hspells, ok_bind, hstream, ok_bind, Source.ofTokens, htexts]
  rfl

/-- Digits are resolved to themselves. -/
theorem resolved_ofNumerals (whole : Outline) (src : List (Instruction String)) :
    whole.resolved (ofNumerals src) = src := by
  rw [resolved, code_ofNumerals, List.map_map]
  apply List.map_id''
  intro ins
  rw [Function.comp_apply, Instruction.map_map]
  exact Instruction.map_eq_self fun _ _ => rfl

/-- The resolved instructions of an outline describe its machine. -/
theorem ofSource_resolved (hwf : outline.WellFormed)
    (hfits : outline.wordCount ≤ limits.memorySize) (hne : outline.code ≠ []) :
    Program.ofSource (" ".intercalate ((outline.resolved outline).flatMap (Instruction.tokens id)))
      limits = .ok ⟨(outline.program limits).machine, {}⟩ := by
  have hreadable := readable_resolved hwf.items outline
  have himage : (ofNumerals (outline.resolved outline)).image = outline.image := by
    rw [image_ofNumerals, map_ofNumeral_resolved, image]
  have hspells := spells_ofNumerals (by simpa [resolved] using hne) hreadable
  apply (ofSource_eq_ok_iff_of_spells hspells (wellFormed_ofNumerals hreadable)).mpr
  constructor
  · rwa [← length_encodeAll_image, himage, length_encodeAll_image]
  · rw [program, himage, table_ofNumerals]
    rfl

end Outline

/-- Resolving the labels in the text of a program changes nothing but the labels.  The
resolved text describes the same machine, and resolving it again leaves it as it is. -/
theorem Program.ofSource_resolve {source : String} {limits : Limits} {p : Program}
    (h : Program.ofSource source limits = .ok p) (hne : p.machine.programLength ≠ 0) :
    ∃ text, Source.resolve source = .ok text ∧
      Program.ofSource text limits = .ok ⟨p.machine, {}⟩ ∧ Source.resolve text = .ok text := by
  obtain ⟨outline, hspells, hwf, hfits, rfl⟩ := ofSource_eq_ok_iff.mp h
  have hcode : outline.code ≠ [] := by
    intro hempty
    rw [Outline.programLength_program, Outline.wordCount_eq_sum_code, hempty] at hne
    exact hne rfl
  have hreadable := Outline.readable_resolved hwf.items outline
  have hagain := (Outline.wellFormed_ofNumerals hreadable).resolve_eq
    (Outline.spells_ofNumerals (by simpa [Outline.resolved] using hcode) hreadable)
  rw [Outline.resolved_ofNumerals] at hagain
  exact ⟨_, hwf.resolve_eq hspells, Outline.ofSource_resolved hwf hfits hcode, hagain⟩

/-- The loop without its labels jumps to thirteen and to zero. -/
theorem Program.ofSource_resolve_loop :
    Source.resolve Source.loop =
        .ok "cmp eax , 1 je 13 mov [ esp + 0 ] , eax inc eax jmp 0 exit" ∧
      Program.ofSource "cmp eax , 1 je 13 mov [ esp + 0 ] , eax inc eax jmp 0 exit"
          { memorySize := 16 } =
        .ok ⟨(Outline.loop.program { memorySize := 16 }).machine, {}⟩ := by
  have hresolve : Source.resolve Source.loop =
      .ok "cmp eax , 1 je 13 mov [ esp + 0 ] , eax inc eax jmp 0 exit" := by cbv
  obtain ⟨text, htext, hsource, -⟩ :=
    Program.ofSource_resolve Outline.loop_ofSource (by decide +kernel)
  rw [hresolve] at htext
  exact ⟨hresolve, Except.ok.inj htext ▸ hsource⟩

end WordMachine
