import Mathlib
import WordMachine.Instruction
import WordMachine.Text.Blank
import WordMachine.Token

/-!
# Slots of instructions

The operands of an instruction are its registers and what stands in its value slots.
Everything else in its source form is fixed by the opcode: the mnemonic and four
punctuation marks.  Marks, register names, mnemonics and numerals are told apart by
their texts alone.
-/

namespace WordMachine

theorem Text.isBlank_of_isDigit {c : Char} (h : c.isDigit) : isBlank c = false := by
  have hdigit : 48 ≤ c.toNat ∧ c.toNat ≤ 57 := by
    simpa [Char.isDigit, UInt32.le_iff_toNat_le] using h
  simp [isBlank]
  omega

theorem Text.blank_notMem {c : Char} (hc : isBlank c = true) {text : String}
    (h : text.toList.any isBlank = false) : c ∉ text.toList := fun hmem =>
  absurd hc (List.any_eq_false.mp h c hmem)

namespace Word

/-- A text of decimal digits, not empty, whose value is a word. -/
def IsNumeral (text : String) : Prop :=
  text ≠ "" ∧ (∀ c ∈ text.toList, c.isDigit) ∧ Nat.ofDigitChars 10 text.toList 0 < modulus

/-- The word that a numeral denotes. -/
def ofNumeral (text : String) : Word := UInt64.ofNat (Nat.ofDigitChars 10 text.toList 0)

theorem ofText?_eq_some_iff {text : String} {w : Word} :
    ofText? text = some w ↔ IsNumeral text ∧ ofNumeral text = w := by
  simp only [ofText?, ofDigits?, IsNumeral, ofNumeral, Option.ite_none_right_eq_some,
    Option.some.injEq, List.all_eq_true, ne_eq, String.toList_eq_nil_iff]

/-- A number that is typed may carry a plus sign. -/
theorem ofTyped?_eq_some_iff {typed : List Char} {w : Word} :
    ofTyped? (String.ofList typed) = some w ↔
      ∃ text, IsNumeral text ∧ (typed = text.toList ∨ typed = '+' :: text.toList) ∧
        ofNumeral text = w := by
  have hdigits : ∀ digits : List Char, ofDigits? digits = ofText? (String.ofList digits) := by
    intro digits
    rw [ofText?, String.toList_ofList]
  rw [ofTyped?, String.toList_ofList]
  split
  · next digits =>
    rw [hdigits, ofText?_eq_some_iff]
    constructor
    · rintro ⟨hnumeral, hw⟩
      exact ⟨_, hnumeral, .inr (by rw [String.toList_ofList]), hw⟩
    · rintro ⟨text, hnumeral, htext | htext, hw⟩
      · have hsign := hnumeral.2.1 '+' (htext ▸ List.mem_cons_self)
        exact absurd hsign (by decide)
      · rw [(List.cons.inj htext).2, String.ofList_toList]
        exact ⟨hnumeral, hw⟩
  · next hsign =>
    rw [hdigits, ofText?_eq_some_iff]
    constructor
    · rintro ⟨hnumeral, hw⟩
      exact ⟨_, hnumeral, .inl (by rw [String.toList_ofList]), hw⟩
    · rintro ⟨text, hnumeral, rfl | htext, hw⟩
      · rw [String.ofList_toList]
        exact ⟨hnumeral, hw⟩
      · exact absurd htext (hsign _)

theorem isSome_ofText?_iff {text : String} : (ofText? text).isSome ↔ IsNumeral text := by
  simp [Option.isSome_iff_exists, ofText?_eq_some_iff]

instance (text : String) : Decidable (IsNumeral text) :=
  decidable_of_iff _ isSome_ofText?_iff

theorem toNat_ofNat {n : Nat} (h : n < modulus) : (UInt64.ofNat n).toNat = n :=
  UInt64.toNat_ofNat_of_lt' h

/-- A sum that is a word does not wrap. -/
theorem toNat_add_ofNat {w : Word} {n : Nat} (h : w.toNat + n < modulus) :
    (w + UInt64.ofNat n).toNat = w.toNat + n := by
  rw [UInt64.toNat_add, toNat_ofNat (by omega)]
  exact Nat.mod_eq_of_lt h

theorem blank_notMem_of_isNumeral {c : Char} (hc : Text.isBlank c = true) {text : String}
    (h : IsNumeral text) : c ∉ text.toList := by
  intro hmem
  rw [Text.isBlank_of_isDigit (h.2.1 c hmem)] at hc
  cases hc

theorem isNumeral_text (w : Word) : IsNumeral w.text :=
  (ofText?_eq_some_iff.mp (ofText?_text w)).1

theorem blank_notMem_text {c : Char} (hc : Text.isBlank c = true) (w : Word) :
    c ∉ w.text.toList :=
  blank_notMem_of_isNumeral hc (isNumeral_text w)

@[simp]
theorem ofNumeral_text (w : Word) : ofNumeral w.text = w :=
  (ofText?_eq_some_iff.mp (ofText?_text w)).2

end Word

namespace Register

/-- Whether a text names a register of the source language. -/
def IsName (text : String) : Prop := ∃ r, r ≠ eip ∧ r.name = text

end Register

namespace Opcode

def IsMnemonic (text : String) : Prop := ∃ op : Opcode, op.mnemonic = text

end Opcode

/-- The punctuation of source text. -/
def marks : List String := [",", "[", "]", "+"]

theorem not_isNumeral_mark {s : String} (hs : s ∈ marks) : ¬ Word.IsNumeral s := by
  fin_cases hs <;> decide

theorem not_isNumeral_name (r : Register) : ¬ Word.IsNumeral r.name := by
  cases r <;> decide

theorem not_isNumeral_mnemonic (op : Opcode) : ¬ Word.IsNumeral op.mnemonic := by
  cases op <;> decide

theorem name_notMem_marks (r : Register) : r.name ∉ marks := by
  cases r <;> decide

theorem mnemonic_notMem_marks (op : Opcode) : op.mnemonic ∉ marks := by
  cases op <;> decide

theorem mnemonic_ne_name (op : Opcode) (r : Register) : op.mnemonic ≠ r.name := by
  cases op <;> cases r <;> decide

theorem not_isName_of_mem_marks {s : String} (hs : s ∈ marks) : ¬ Register.IsName s := by
  rintro ⟨r, -, rfl⟩
  exact name_notMem_marks r hs

theorem not_isName_of_isNumeral {s : String} (hs : Word.IsNumeral s) :
    ¬ Register.IsName s := by
  rintro ⟨r, -, rfl⟩
  exact not_isNumeral_name r hs

namespace Instruction

variable {U V W : Type}

def registers : Instruction V → List Register
  | je _ | jmp _ | exit => []
  | cmp r _ | sub r _ | set r _ | inc r => [r]
  | add r base _ | load r base _ => [r, base]
  | storeRegister base _ r => [base, r]
  | storeValue base _ _ => [base]
  | copy r source => [r, source]

/-- What stands in the value slots, in the order of the tokens. -/
def values : Instruction V → List V
  | je v | jmp v | cmp _ v | sub _ v | set _ v | add _ _ v | load _ _ v
  | storeRegister _ v _ => [v]
  | storeValue _ v w => [v, w]
  | copy _ _ | inc _ | exit => []

/-- Replaces what stands in the value slots. -/
def map (f : V → W) : Instruction V → Instruction W
  | je v => je (f v)
  | jmp v => jmp (f v)
  | cmp r v => cmp r (f v)
  | add r base v => add r base (f v)
  | sub r v => sub r (f v)
  | storeRegister base v r => storeRegister base (f v) r
  | storeValue base v w => storeValue base (f v) (f w)
  | load r base v => load r base (f v)
  | copy r source => copy r source
  | set r v => set r (f v)
  | inc r => inc r
  | exit => exit

/-- Source text has a name for every register of the instruction. -/
def Named (ins : Instruction V) : Prop := ∀ r ∈ ins.registers, r ≠ .eip

instance (ins : Instruction V) : Decidable ins.Named :=
  inferInstanceAs (Decidable (∀ r ∈ ins.registers, r ≠ .eip))

@[simp]
theorem opcode_map (f : V → W) (ins : Instruction V) : (ins.map f).opcode = ins.opcode := by
  cases ins <;> rfl

@[simp]
theorem wordCount_map (f : V → W) (ins : Instruction V) :
    (ins.map f).wordCount = ins.wordCount := by
  simp only [wordCount, opcode_map]

@[simp]
theorem tokenCount_map (f : V → W) (ins : Instruction V) :
    (ins.map f).tokenCount = ins.tokenCount := by
  simp only [tokenCount, opcode_map]

@[simp]
theorem registers_map (f : V → W) (ins : Instruction V) :
    (ins.map f).registers = ins.registers := by
  cases ins <;> rfl

@[simp]
theorem values_map (f : V → W) (ins : Instruction V) :
    (ins.map f).values = ins.values.map f := by
  cases ins <;> rfl

@[simp]
theorem map_map (f : V → W) (g : U → V) (ins : Instruction U) :
    (ins.map g).map f = ins.map (f ∘ g) := by
  cases ins <;> rfl

@[simp]
theorem operandTokens_map (text : W → String) (f : V → W) (ins : Instruction V) :
    (ins.map f).operandTokens text = ins.operandTokens (text ∘ f) := by
  cases ins <;> rfl

@[simp]
theorem tokens_map (text : W → String) (f : V → W) (ins : Instruction V) :
    (ins.map f).tokens text = ins.tokens (text ∘ f) := by
  simp only [tokens, opcode_map, operandTokens_map]

@[simp]
theorem named_map (f : V → W) (ins : Instruction V) : (ins.map f).Named ↔ ins.Named := by
  simp [Named]

theorem map_congr {f g : V → W} {ins : Instruction V} (h : ∀ v ∈ ins.values, f v = g v) :
    ins.map f = ins.map g := by
  cases ins <;> simp_all [map, values]

theorem map_eq_self {f : V → V} {ins : Instruction V} (h : ∀ v ∈ ins.values, f v = v) :
    ins.map f = ins := by
  cases ins <;> simp_all [map, values]

/-- An operand token is a mark, the name of a register or the text of a value. -/
theorem mem_operandTokens {text : V → String} {ins : Instruction V} {s : String}
    (hs : s ∈ ins.operandTokens text) :
    s ∈ marks ∨ (∃ r ∈ ins.registers, r.name = s) ∨ ∃ v ∈ ins.values, text v = s := by
  cases ins <;>
    simp only [operandTokens, cellTokens, List.mem_cons, List.mem_append, List.not_mem_nil,
      or_false] at hs <;>
    simp [marks, registers, values] <;> tauto

/-- Where a blank does not stand in the values, it stands in no token. -/
theorem blank_notMem_tokens {c : Char} (hc : Text.isBlank c = true) {text : V → String}
    {ins : Instruction V} (hvalues : ∀ v ∈ ins.values, c ∉ (text v).toList) {s : String}
    (hs : s ∈ ins.tokens text) : c ∉ s.toList := by
  rcases List.mem_cons.mp hs with rfl | hs
  · apply Text.blank_notMem hc
    generalize ins.opcode = op
    cases op <;> decide
  rcases mem_operandTokens hs with hmark | ⟨r, _, rfl⟩ | ⟨v, hv, rfl⟩
  · apply Text.blank_notMem hc
    fin_cases hmark <;> decide
  · apply Text.blank_notMem hc
    cases r <;> decide
  · exact hvalues v hv

end Instruction

end WordMachine
