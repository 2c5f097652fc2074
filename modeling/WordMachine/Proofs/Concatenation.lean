import Mathlib
import WordMachine.Proofs.Addresses
import WordMachine.Proofs.Disassembly

/-!
# Programs one behind the other

Two source texts with a space between them spell their outlines one behind the other.  If no
name is declared in both, neither part sees the labels of the other one.  The words of the
first part stay as they are, and those of the second part change only where they are
addresses.
-/

namespace WordMachine

/-- A label whose declaration has moved behind some words of memory and some tokens of a
text. -/
def Label.moved (words tokens : Nat) (l : Label) : Label where
  name := l.name
  address := l.address + UInt64.ofNat words
  index := l.index + tokens

/-- The word of an operand whose label has moved behind some words of memory.  A literal is
what it was. -/
def SymbolTable.movedWord (table : SymbolTable) (words : Nat) : Operand → Word
  | .literal digits => Word.ofNumeral digits
  | .reference name => table.word (.reference name) + UInt64.ofNat words

namespace Outline

variable {first second : Outline} {name : String} {v : Operand}

/-- Two texts with a space between them spell both outlines, one behind the other. -/
theorem Spells.append {source rest : String} (hfirst : first.Spells source)
    (hsecond : second.Spells rest) : Spells (first ++ second) (source ++ " " ++ rest) := by
  rw [Spells, Source.map_text_tokens_append, tokens_append, hfirst, hsecond]

theorem WellFormed.append (hfirst : first.WellFormed) (hsecond : second.WellFormed)
    (hnames : first.names.Disjoint second.names) : WellFormed (first ++ second) where
  items := by
    intro item hitem
    rw [names_append]
    rcases List.mem_append.mp hitem with hitem | hitem
    · exact (hfirst.items item hitem).mono (List.subset_append_left _ _)
    · exact (hsecond.items item hitem).mono (List.subset_append_right _ _)
  nodup := by
    rw [names_append]
    exact hfirst.nodup.append hsecond.nodup hnames

theorem mem_names_iff {outline : Outline} :
    name ∈ outline.names ↔ .declaration name ∈ outline := by
  induction outline with
  | nil => simp
  | cons item rest ih => cases item <;> simp [ih]

/-- A label of the first part stands where it stood. -/
theorem address_append_of_mem (h : name ∈ first.names) :
    address (first ++ second) name = first.address name := by
  have hstop : (first.before name).length ≠ first.length := by
    intro hlength
    have hself : first.before name = first :=
      (List.takeWhile_prefix _).eq_of_length hlength
    have hskip := List.takeWhile_eq_self_iff.mp hself _ (mem_names_iff.mp h)
    simp at hskip
  rw [address, before, List.takeWhile_append]
  exact congrArg wordCount (if_neg hstop)

/-- A label of the second part stands behind the first part. -/
theorem address_append_of_notMem (h : name ∉ first.names) :
    address (first ++ second) name = first.wordCount + second.address name := by
  have hskip : ∀ item ∈ first, decide (item ≠ .declaration name) = true := by
    intro item hitem
    apply decide_eq_true
    rintro rfl
    exact h (mem_names_iff.mpr hitem)
  rw [address, address, before, List.takeWhile_append_of_pos hskip, wordCount_append]
  rfl

theorem word_append_left (hv : v.WellFormed first.names) :
    word (first ++ second) v = first.word v := by
  cases v with
  | literal digits => rfl
  | reference name => rw [word, word, address_append_of_mem hv.2]

theorem word_append_right (hnames : first.names.Disjoint second.names)
    (hv : v.WellFormed second.names) :
    word (first ++ second) v = second.table.movedWord first.wordCount v := by
  cases v with
  | literal digits => rfl
  | reference name =>
      have hname : name ∉ first.names := fun hfirst => hnames hfirst hv.2
      rw [SymbolTable.movedWord, SymbolTable.word_table hv, word, word,
        address_append_of_notMem hname, UInt64.ofNat_add, UInt64.add_comm]

/-- The instructions of the second part, with their addresses moved, stand behind those of
the first part. -/
theorem image_append (hfirst : first.WellFormed) (hsecond : second.WellFormed)
    (hnames : first.names.Disjoint second.names) :
    image (first ++ second) = first.image ++
      second.code.map (Instruction.map (second.table.movedWord first.wordCount)) := by
  rw [image, code_append, List.map_append, image]
  congr 1
  · apply List.map_congr_left
    intro ins hins
    apply Instruction.map_congr
    intro v hv
    exact word_append_left ((hfirst.instruction hins).2 v hv)
  · apply List.map_congr_left
    intro ins hins
    apply Instruction.map_congr
    intro v hv
    exact word_append_right hnames ((hsecond.instruction hins).2 v hv)

/-- Labels move with the code that they are declared in. -/
theorem labelsFrom_moved (words tokens address index : Nat) (outline : Outline) :
    labelsFrom (address + words) (index + tokens) outline =
      (labelsFrom address index outline).map (Label.moved words tokens) := by
  induction outline generalizing address index with
  | nil => rfl
  | cons item rest ih =>
      cases item with
      | declaration name =>
          rw [labelsFrom, labelsFrom, List.map_cons, ← ih, Label.moved, UInt64.ofNat_add,
            Nat.add_right_comm]
      | instruction ins =>
          rw [labelsFrom, labelsFrom, ← ih, Nat.add_right_comm, Nat.add_right_comm index]

theorem labels_append (first second : Outline) :
    (table (first ++ second)).labels = first.table.labels ++
      second.table.labels.map (Label.moved first.wordCount first.tokens.length) := by
  rw [table, labelsFrom_append, table, table, labelsFrom_moved]

end Outline

theorem Row.listOf_append (address : Nat) (code rest : List (Instruction Word)) :
    listOf address (code ++ rest) = listOf address code ++
      listOf (address + (Instruction.encodeAll code).length) rest := by
  induction code generalizing address with
  | nil => rfl
  | cons ins code ih =>
      rw [encodeAll_cons, List.length_append, Instruction.length_encode, ← Nat.add_assoc,
        List.cons_append, listOf, ih]
      rfl

/-- A program that consists of a first program and, behind it, a second one.  The second one
is that of the given outline, and the text of the first one has the given number of tokens. -/
structure Program.Joins (first second p : Program) (tokens : Nat) (outline : Outline) :
    Prop where
  length : p.machine.programLength = first.machine.programLength + second.machine.programLength
  labels : p.labels.labels = first.labels.labels ++
    second.labels.labels.map (Label.moved first.machine.programLength tokens)
  /-- No address wraps where it moves. -/
  exact : ∀ l ∈ second.labels.labels,
    (l.moved first.machine.programLength tokens).address.toNat =
      l.address.toNat + first.machine.programLength
  words : p.machine.memory.toList.take first.machine.programLength =
    first.machine.memory.toList.take first.machine.programLength
  /-- Behind the rows of the first program come those of the second one, with the length of
  the first program added to their addresses and to the operands that refer to labels. -/
  rows : ∃ front, first.machine.listing = .ok front ∧
    second.machine.listing =
      .ok (Row.listOf 0 (outline.code.map (Instruction.map second.labels.word))) ∧
    p.machine.listing = .ok (front ++ Row.listOf first.machine.programLength
      (outline.code.map
        (Instruction.map (second.labels.movedWord first.machine.programLength))))

namespace Outline

variable {first second : Outline} {limits limits₁ limits₂ : Limits}

/-- Behind another program code keeps its text, and its addresses move. -/
theorem joins_append (hfirst : first.WellFormed) (hsecond : second.WellFormed)
    (hnames : first.names.Disjoint second.names)
    (hfits₁ : first.wordCount ≤ limits₁.memorySize) (hsize₁ : limits₁.memorySize < Word.modulus)
    (hfits₂ : second.wordCount ≤ limits₂.memorySize) (hsize₂ : limits₂.memorySize < Word.modulus)
    (hfits : first.wordCount + second.wordCount ≤ limits.memorySize)
    (hsize : limits.memorySize < Word.modulus) :
    (first.program limits₁).Joins (second.program limits₂)
      (program (first ++ second) limits) first.tokens.length second where
  length := by
    simp only [programLength_program]
    exact wordCount_append first second
  labels := by
    rw [programLength_program]
    exact labels_append first second
  exact := by
    intro l hl
    obtain ⟨before, after, rfl, haddress, -⟩ := mem_labelsFrom hl
    rw [wordCount_append, wordCount_declaration] at hfits
    rw [programLength_program, Label.moved]
    apply Word.toNat_add_ofNat
    rw [haddress, Nat.zero_add, Word.toNat_ofNat (by omega)]
    omega
  words := by
    have hlength := first.length_encodeAll_image
    rw [programLength_program, toList_memory_program, toList_memory_program,
      image_append hfirst hsecond hnames, encodeAll_append, List.append_assoc, ← hlength,
      List.take_left, List.take_left]
  rows := by
    have hcode : second.image = second.code.map (Instruction.map second.table.word) :=
      List.map_congr_left fun ins hins => (hsecond.map_word_table hins).symm
    refine ⟨_, listing_program hfits₁ hsize₁, ?_, ?_⟩
    · rw [listing_program hfits₂ hsize₂, hcode]
      rfl
    · rw [← wordCount_append] at hfits
      rw [listing_program hfits hsize, image_append hfirst hsecond hnames, Row.listOf_append,
        length_encodeAll_image, Nat.zero_add, programLength_program]
      rfl

end Outline

/-- Programs compose by concatenation of their texts.  The labels of the second part move
behind the words of the first one, and with them the operands that refer to them; all else
stays. -/
theorem Program.ofSource_append {source rest : String} {limits limits₁ limits₂ : Limits}
    {first second : Program} (hsize₁ : limits₁.memorySize < Word.modulus)
    (hsize₂ : limits₂.memorySize < Word.modulus) (hsize : limits.memorySize < Word.modulus)
    (hfirst : Program.ofSource source limits₁ = .ok first)
    (hsecond : Program.ofSource rest limits₂ = .ok second)
    (hnames : ∀ name ∈ first.labels.names, name ∉ second.labels.names)
    (hfits : first.machine.programLength + second.machine.programLength ≤ limits.memorySize) :
    ∃ p, Program.ofSource (source ++ " " ++ rest) limits = .ok p ∧
      (∃ outline : Outline, outline.Spells rest ∧ outline.WellFormed) ∧
      ∀ outline : Outline, outline.Spells rest → outline.WellFormed →
        first.Joins second p (Source.tokenCount source) outline := by
  obtain ⟨front, hspells₁, hwf₁, hfits₁, rfl⟩ := ofSource_eq_ok_iff.mp hfirst
  obtain ⟨back, hspells₂, hwf₂⟩ := exists_outline hsecond
  -- Every outline of the second text describes its program, so one of them is as good as another.
  have hjoins : ∀ outline : Outline, outline.Spells rest → outline.WellFormed →
      Program.ofSource (source ++ " " ++ rest) limits =
          .ok (Outline.program (front ++ outline) limits) ∧
        (front.program limits₁).Joins second (Outline.program (front ++ outline) limits)
          (Source.tokenCount source) outline := by
    intro outline hspells hwf
    obtain ⟨hfits₂, rfl⟩ := (Outline.ofSource_eq_ok_iff_of_spells hspells hwf).mp hsecond
    have hdisjoint : front.names.Disjoint outline.names := by
      rw [← SymbolTable.names_table front, ← SymbolTable.names_table outline]
      exact fun name hfront houtline => hnames name hfront houtline
    have htokens : front.tokens.length = Source.tokenCount source := by
      rw [← Source.length_tokens, hspells₁.tokens_eq, Token.length_numbered]
    simp only [Outline.programLength_program] at hfits
    constructor
    · apply (Outline.ofSource_eq_ok_iff_of_spells (hspells₁.append hspells)
        (hwf₁.append hwf hdisjoint)).mpr
      exact ⟨by rwa [Outline.wordCount_append], rfl⟩
    · rw [← htokens]
      exact Outline.joins_append hwf₁ hwf hdisjoint hfits₁ hsize₁ hfits₂ hsize₂ hfits hsize
  have hp := (hjoins back hspells₂ hwf₂).1
  refine ⟨_, hp, ⟨back, hspells₂, hwf₂⟩, ?_⟩
  intro outline hspells hwf
  obtain ⟨hp', hjoined⟩ := hjoins outline hspells hwf
  rw [hp] at hp'
  rwa [Except.ok.inj hp']

/-- The loop and behind it a text with a literal and a reference of the same value. -/
theorem Program.ofSource_append_loop :
    ∃ p, Program.ofSource (Source.loop ++ " " ++ ":spin je 0 jmp .spin") { memorySize := 18 } =
        .ok p ∧
      p.labels.labels = [⟨"again", 0, 0⟩, ⟨"done", 13, 19⟩, ⟨"spin", 14, 21⟩] ∧
      ∃ front, (Outline.loop.program { memorySize := 16 }).machine.listing = .ok front ∧
        p.machine.listing = .ok (front ++ [⟨14, .je 0⟩, ⟨16, .jmp 14⟩]) := by
  let spin : Outline := [.declaration "spin", .instruction (.je (.literal "0")),
    .instruction (.jmp (.reference "spin"))]
  have hspells : spin.Spells ":spin je 0 jmp .spin" := by decide +kernel
  have hwf : spin.WellFormed := by decide +kernel
  have hspin : Program.ofSource ":spin je 0 jmp .spin" { memorySize := 4 } =
      .ok (spin.program { memorySize := 4 }) :=
    (Outline.ofSource_eq_ok_iff_of_spells hspells hwf).mpr ⟨by decide +kernel, rfl⟩
  have hsize : ({ memorySize := 18 } : Limits).memorySize < Word.modulus := by decide
  obtain ⟨p, hp, -, hjoins⟩ := Program.ofSource_append (by decide) (by decide) hsize
    Outline.loop_ofSource hspin (by decide +kernel) (by decide +kernel)
  obtain ⟨-, hlabels, -, -, front, hfront, -, hrows⟩ := hjoins spin hspells hwf
  refine ⟨p, hp, ?_, front, hfront, ?_⟩
  · rw [hlabels]
    decide +kernel
  · rw [hrows]
    congr 2

end WordMachine
