import Mathlib
import WordMachine.Program
import WordMachine.Proofs.Slots

/-!
# Outlines of source texts

An outline is a source text with its structure made plain: declarations and
instructions in their order, where a value slot holds a numeral or refers to a label.
Its tokens are its only written form.  A declaration takes no memory, so a label
stands for the number of words that the instructions before its declaration take, and
this is all that is needed to turn each instruction into one of words.
-/

namespace WordMachine

/-- What source text may put into a value slot. -/
inductive Operand where
  | literal (digits : String)
  | reference (name : String)
  deriving DecidableEq, Repr

inductive Item where
  | declaration (name : String)
  | instruction (ins : Instruction Operand)
  deriving DecidableEq, Repr

abbrev Outline := List Item

namespace Operand

def text : Operand → String
  | literal digits => digits
  | reference name => "." ++ name

/-- A literal is a numeral, and a reference is to one of the given names. -/
def WellFormed (names : List String) : Operand → Prop
  | literal digits => Word.IsNumeral digits
  | reference name => name ≠ "" ∧ name ∈ names

instance (names : List String) (v : Operand) : Decidable (v.WellFormed names) :=
  match v with
  | literal digits => inferInstanceAs (Decidable (Word.IsNumeral digits))
  | reference name => inferInstanceAs (Decidable (name ≠ "" ∧ name ∈ names))

theorem WellFormed.mono {names names' : List String} (hsub : names ⊆ names') {v : Operand}
    (h : v.WellFormed names) : v.WellFormed names' := by
  cases v with
  | literal digits => exact h
  | reference name => exact ⟨h.1, hsub h.2⟩

end Operand

namespace Item

def tokens : Item → List String
  | declaration name => [":" ++ name]
  | instruction ins => ins.tokens Operand.text

theorem length_tokens_pos (item : Item) : 0 < item.tokens.length := by
  cases item <;> simp [tokens, Instruction.tokens]

def wordCount : Item → Nat
  | declaration _ => 0
  | instruction ins => ins.wordCount

/-- A declared name is not empty, and an instruction has operands that source text can
spell. -/
def WellFormed (names : List String) : Item → Prop
  | declaration name => name ≠ ""
  | instruction ins => ins.Named ∧ ∀ v ∈ ins.values, v.WellFormed names

instance (names : List String) (item : Item) : Decidable (item.WellFormed names) :=
  match item with
  | declaration name => inferInstanceAs (Decidable (name ≠ ""))
  | instruction ins =>
      inferInstanceAs (Decidable (ins.Named ∧ ∀ v ∈ ins.values, v.WellFormed names))

theorem WellFormed.mono {names names' : List String} (hsub : names ⊆ names') {item : Item}
    (h : item.WellFormed names) : item.WellFormed names' := by
  cases item with
  | declaration name => exact h
  | instruction ins => exact ⟨h.1, fun v hv => (h.2 v hv).mono hsub⟩

end Item

namespace Outline

def tokens (outline : Outline) : List String := outline.flatMap Item.tokens

def wordCount (outline : Outline) : Nat := (outline.map Item.wordCount).sum

def names (outline : Outline) : List String :=
  outline.filterMap fun
    | .declaration name => some name
    | .instruction _ => none

def code (outline : Outline) : List (Instruction Operand) :=
  outline.filterMap fun
    | .declaration _ => none
    | .instruction ins => some ins

/-- Whether the words of a source text are the tokens of the outline. -/
def Spells (outline : Outline) (source : String) : Prop :=
  (Source.tokens source).map Token.text = outline.tokens

instance (outline : Outline) (source : String) : Decidable (outline.Spells source) :=
  inferInstanceAs (Decidable (_ = _))

/-- No label is declared twice, and each reference is to a declared one. -/
structure WellFormed (outline : Outline) : Prop where
  items : ∀ item ∈ outline, item.WellFormed outline.names
  nodup : outline.names.Nodup

instance (outline : Outline) : Decidable outline.WellFormed :=
  decidable_of_iff ((∀ item ∈ outline, item.WellFormed outline.names) ∧ outline.names.Nodup)
    ⟨fun h => ⟨h.1, h.2⟩, fun h => ⟨h.items, h.nodup⟩⟩

/-- The part in front of the declaration of a name. -/
def before (outline : Outline) (name : String) : Outline :=
  outline.takeWhile fun item => item ≠ .declaration name

def address (outline : Outline) (name : String) : Nat := (outline.before name).wordCount

/-- The address of the instruction with a given index, or the end of the program. -/
def offset (outline : Outline) (i : Nat) : Nat :=
  ((outline.code.take i).map Instruction.wordCount).sum

def word (outline : Outline) : Operand → Word
  | .literal digits => Word.ofNumeral digits
  | .reference name => UInt64.ofNat (outline.address name)

def image (outline : Outline) : List (Instruction Word) :=
  outline.code.map (Instruction.map outline.word)

/-- The labels of an outline whose first item has the given address and token index. -/
def labelsFrom : Nat → Nat → Outline → List Label
  | _, _, [] => []
  | address, index, .declaration name :: rest =>
    ⟨name, UInt64.ofNat address, index⟩ :: labelsFrom address (index + 1) rest
  | address, index, .instruction ins :: rest =>
    labelsFrom (address + ins.wordCount) (index + ins.tokenCount) rest

def table (outline : Outline) : SymbolTable := ⟨labelsFrom 0 0 outline⟩

def program (outline : Outline) (limits : Limits) : Program where
  machine := Machine.loaded limits.memorySize (Instruction.encodeAll outline.image)
  labels := outline.table

section

variable (outline rest : Outline) (name : String) (ins : Instruction Operand)

@[simp]
theorem tokens_nil : tokens [] = [] := rfl

@[simp]
theorem tokens_declaration : tokens (.declaration name :: rest) = (":" ++ name) :: tokens rest :=
  rfl

@[simp]
theorem tokens_instruction :
    tokens (.instruction ins :: rest) = ins.tokens Operand.text ++ tokens rest := rfl

theorem tokens_append : tokens (outline ++ rest) = tokens outline ++ tokens rest :=
  List.flatMap_append

@[simp]
theorem wordCount_nil : wordCount [] = 0 := rfl

@[simp]
theorem wordCount_declaration : wordCount (.declaration name :: rest) = wordCount rest := by
  simp [wordCount, Item.wordCount]

@[simp]
theorem wordCount_instruction :
    wordCount (.instruction ins :: rest) = ins.wordCount + wordCount rest := by
  simp [wordCount, Item.wordCount]

theorem wordCount_append : wordCount (outline ++ rest) = wordCount outline + wordCount rest := by
  simp [wordCount]

@[simp]
theorem names_nil : names [] = [] := rfl

@[simp]
theorem names_declaration : names (.declaration name :: rest) = name :: names rest := rfl

@[simp]
theorem names_instruction : names (.instruction ins :: rest) = names rest := rfl

theorem names_append : names (outline ++ rest) = names outline ++ names rest :=
  List.filterMap_append

@[simp]
theorem code_nil : code [] = [] := rfl

@[simp]
theorem code_declaration : code (.declaration name :: rest) = code rest := rfl

@[simp]
theorem code_instruction : code (.instruction ins :: rest) = ins :: code rest := rfl

theorem code_append : code (outline ++ rest) = code outline ++ code rest := by
  simp [code]

/-- Declarations take no memory. -/
theorem wordCount_eq_sum_code :
    wordCount outline = (outline.code.map Instruction.wordCount).sum := by
  induction outline with
  | nil => rfl
  | cons item rest ih => cases item <;> simp [ih]

end

theorem encodeAll_append (code rest : List (Instruction Word)) :
    Instruction.encodeAll (code ++ rest) =
      Instruction.encodeAll code ++ Instruction.encodeAll rest := by
  simp [Instruction.encodeAll]

theorem length_encodeAll (code : List (Instruction Word)) :
    (Instruction.encodeAll code).length = (code.map Instruction.wordCount).sum := by
  simp [Instruction.encodeAll]

/-- The words in memory are as many as the instructions of the outline take. -/
theorem length_encodeAll_image (outline : Outline) :
    (Instruction.encodeAll outline.image).length = outline.wordCount := by
  simp [length_encodeAll, image, wordCount_eq_sum_code, Function.comp_def]

/-- An instruction takes up the words between its address and that of the next. -/
theorem offset_succ {outline : Outline} {i : Nat} {ins : Instruction Operand}
    (h : outline.code[i]? = some ins) :
    outline.offset (i + 1) = outline.offset i + ins.wordCount := by
  rw [offset, offset, List.take_add_one, h]
  simp

theorem offset_le (outline : Outline) (i : Nat) : outline.offset i ≤ outline.wordCount := by
  rw [wordCount_eq_sum_code, offset]
  exact ((outline.code.take_sublist i).map _).sum_le_sum (by simp)

theorem getElem?_code_append (before after : Outline) :
    (code (before ++ after))[before.code.length]? = after.code.head? := by
  rw [code_append, List.getElem?_append_right le_rfl, Nat.sub_self, List.head?_eq_getElem?]

/-- The instruction behind some items stands at the address that they end at. -/
theorem offset_append (before after : Outline) :
    offset (before ++ after) before.code.length = before.wordCount := by
  rw [offset, code_append, List.take_left, wordCount_eq_sum_code]

/-- The words of an instruction stand behind those of the instructions before it. -/
theorem encode_prefix_drop {outline : Outline} {i : Nat} {ins : Instruction Operand}
    (h : outline.code[i]? = some ins) :
    (ins.map outline.word).encode <+:
      (Instruction.encodeAll outline.image).drop (outline.offset i) := by
  obtain ⟨hi, hget⟩ := List.getElem?_eq_some_iff.mp h
  have himage : outline.image = (outline.code.take i).map (Instruction.map outline.word) ++
      ins.map outline.word :: (outline.code.drop (i + 1)).map (Instruction.map outline.word) := by
    rw [image, ← List.map_cons, ← List.map_append, ← hget, ← List.drop_eq_getElem_cons hi,
      List.take_append_drop]
  have hoffset : (Instruction.encodeAll
      ((outline.code.take i).map (Instruction.map outline.word))).length = outline.offset i := by
    simp [length_encodeAll, offset, Function.comp_def]
  rw [himage, encodeAll_append, ← hoffset, List.drop_left]
  exact List.prefix_append _ _

theorem names_labelsFrom (address index : Nat) (outline : Outline) :
    (labelsFrom address index outline).map Label.name = outline.names := by
  induction outline generalizing address index with
  | nil => rfl
  | cons item rest ih => cases item <;> simp [labelsFrom, ih]

theorem before_declaration (name : String) (rest : Outline) :
    before (.declaration name :: rest) name = [] := by
  simp [before]

theorem before_cons_of_ne {item : Item} {name : String} (h : item ≠ .declaration name)
    (rest : Outline) : before (item :: rest) name = item :: before rest name := by
  simp [before, h]

/-- The first label of a name is that of its first declaration. -/
theorem find?_labelsFrom {outline : Outline} {name : String} (hname : name ∈ outline.names)
    (address index : Nat) :
    ((labelsFrom address index outline).find? fun l => l.name == name).map Label.address =
      some (UInt64.ofNat (address + outline.address name)) := by
  induction outline generalizing address index with
  | nil => simp at hname
  | cons item rest ih =>
      cases item with
      | declaration other =>
          by_cases hother : other = name
          · subst hother
            simp [labelsFrom, Outline.address, before_declaration]
          · have hrest : name ∈ names rest := by simpa [Ne.symm hother] using hname
            have hne : Item.declaration other ≠ .declaration name := by simpa using hother
            simpa [labelsFrom, hother, Outline.address, before_cons_of_ne hne] using
              ih hrest address (index + 1)
      | instruction ins =>
          have hne : Item.instruction ins ≠ .declaration name := by simp
          simpa [labelsFrom, Outline.address, before_cons_of_ne hne, Nat.add_assoc] using
            ih (by simpa using hname) (address + ins.wordCount) (index + ins.tokenCount)

/-- The table of an outline gives each declared name its address. -/
theorem address?_table {outline : Outline} {name : String} (hname : name ∈ outline.names) :
    outline.table.address? name = some (UInt64.ofNat (outline.address name)) := by
  simpa [table, SymbolTable.address?, SymbolTable.find?] using find?_labelsFrom hname 0 0

end Outline

end WordMachine
