import Mathlib
import WordMachine.Proofs.Reading
import WordMachine.Proofs.Words

/-!
# Source forms of instructions

An instruction of words has one written form, and reading gives it back unless the form
names the instruction pointer.  What reading accepts is that form, where a numeral may have
zeros in front.
-/

namespace WordMachine

namespace Word

/-- Digits without their leading zeros; the last digit stays. -/
def dropZeros : List Char → List Char
  | '0' :: next :: rest => dropZeros (next :: rest)
  | digits => digits

/-- A text of digits without its leading zeros, any other text as it stands. -/
def trimZeros (text : String) : String :=
  if text.toList.all Char.isDigit then String.ofList (dropZeros text.toList) else text

theorem exists_digitChar {c : Char} (hc : c.isDigit) : ∃ d < 10, c = Nat.digitChar d := by
  have hrange : 48 ≤ c.toNat ∧ c.toNat ≤ 57 := by
    simpa [Char.isDigit, UInt32.le_iff_toNat_le] using hc
  refine ⟨c.toNat - 48, by omega, Char.toNat_inj.mp ?_⟩
  rw [Nat.toNat_digitChar_of_lt_ten (by omega)]
  omega

/-- Digits that are read behind a number other than zero are written behind it. -/
theorem toDigits_ofDigitChars {digits : List Char} (hdigits : ∀ c ∈ digits, c.isDigit) {n : Nat}
    (hpos : 0 < n) :
    Nat.toDigits 10 (Nat.ofDigitChars 10 digits n) = Nat.toDigits 10 n ++ digits := by
  induction digits generalizing n with
  | nil => rw [Nat.ofDigitChars_nil, List.append_nil]
  | cons c rest ih =>
      obtain ⟨hc, hrest⟩ := List.forall_mem_cons.mp hdigits
      obtain ⟨d, hd, rfl⟩ := exists_digitChar hc
      calc Nat.toDigits 10 (Nat.ofDigitChars 10 (d.digitChar :: rest) n)
          = Nat.toDigits 10 (10 * n + d) ++ rest := by
            rw [Nat.ofDigitChars_cons_digitChar_of_lt_ten hd, ih hrest (by omega)]
        _ = Nat.toDigits 10 n ++ [d.digitChar] ++ rest := by
            rw [← Nat.toDigits_append_toDigits (by decide) hpos hd, Nat.toDigits_of_lt_base hd]
        _ = Nat.toDigits 10 n ++ d.digitChar :: rest := by
            rw [List.append_assoc, List.singleton_append]

/-- A digit string that starts with no zero is the one written for its value. -/
theorem toDigits_of_head {c : Char} {rest : List Char} (hdigits : ∀ c' ∈ c :: rest, c'.isDigit)
    (hhead : c ≠ '0') : Nat.toDigits 10 (Nat.ofDigitChars 10 (c :: rest) 0) = c :: rest := by
  obtain ⟨hc, hrest⟩ := List.forall_mem_cons.mp hdigits
  obtain ⟨d, hd, rfl⟩ := exists_digitChar hc
  have hpos : 0 < d := by
    rw [Nat.pos_iff_ne_zero]
    rintro rfl
    exact hhead rfl
  rw [Nat.ofDigitChars_cons_digitChar_of_lt_ten hd, Nat.mul_zero, Nat.zero_add,
    toDigits_ofDigitChars hrest hpos, Nat.toDigits_of_lt_base hd, List.singleton_append]

theorem toDigits_eq_dropZeros {digits : List Char} (hdigits : ∀ c ∈ digits, c.isDigit)
    (hne : digits ≠ []) :
    Nat.toDigits 10 (Nat.ofDigitChars 10 digits 0) = dropZeros digits := by
  induction digits using dropZeros.induct with
  | case1 next rest ih =>
      rw [Nat.ofDigitChars_cons]
      exact ih (fun c hc => hdigits c (List.mem_cons_of_mem _ hc)) (List.cons_ne_nil _ _)
  | case2 digits hshape =>
      rw [dropZeros.eq_2 _ hshape]
      obtain ⟨c, rest, rfl⟩ := List.exists_cons_of_ne_nil hne
      by_cases hhead : c = '0'
      · subst hhead
        cases rest with
        | nil => rfl
        | cons next rest => exact (hshape next rest rfl).elim
      · exact toDigits_of_head hdigits hhead

/-- Without its leading zeros a numeral is that of its value. -/
theorem trimZeros_of_isNumeral {text : String} (h : IsNumeral text) :
    trimZeros text = (ofNumeral text).text := by
  obtain ⟨hne, hdigits, hfits⟩ := h
  rw [trimZeros, if_pos (List.all_eq_true.mpr hdigits), ofNumeral, Word.text, toNat_ofNat hfits,
    Nat.repr_eq_ofList_toDigits, toDigits_eq_dropZeros hdigits (by simpa using hne)]

/-- The numeral of a word has no zeros to lose. -/
theorem trimZeros_text (w : Word) : trimZeros w.text = w.text := by
  rw [trimZeros_of_isNumeral (isNumeral_text w), ofNumeral_text]

theorem text_injective : Function.Injective text := by
  intro w v h
  rw [← ofNumeral_text w, h, ofNumeral_text]

end Word

theorem trimZeros_of_mem_marks {s : String} (hs : s ∈ marks) : Word.trimZeros s = s := by
  fin_cases hs <;> decide

theorem trimZeros_name (r : Register) : Word.trimZeros r.name = r.name := by
  cases r <;> decide

theorem trimZeros_mnemonic (op : Opcode) : Word.trimZeros op.mnemonic = op.mnemonic := by
  cases op <;> decide

theorem name_ne_bracket (r : Register) : r.name ≠ "[" := by
  cases r <;> decide

theorem text_ne_bracket (w : Word) : w.text ≠ "[" := by
  intro h
  exact not_isNumeral_mark (s := "[") (by decide) (h ▸ Word.isNumeral_text w)

theorem name_ne_text (r : Register) (w : Word) : r.name ≠ w.text := by
  intro h
  exact not_isNumeral_name r (h ▸ Word.isNumeral_text w)

theorem Register.name_injective : Function.Injective name := by
  intro r r'
  cases r <;> cases r' <;> decide

namespace Instruction

variable {V : Type}

/-- A change of texts that keeps marks, names and mnemonics is one of the values alone. -/
theorem map_tokens {f : String → String} (hmarks : ∀ s ∈ marks, f s = s)
    (hnames : ∀ r : Register, f r.name = r.name)
    (hmnemonics : ∀ op : Opcode, f op.mnemonic = op.mnemonic) (text : V → String)
    (ins : Instruction V) : (ins.tokens text).map f = ins.tokens (f ∘ text) := by
  have hcomma := hmarks "," (by decide)
  have hopen := hmarks "[" (by decide)
  have hclose := hmarks "]" (by decide)
  have hplus := hmarks "+" (by decide)
  rw [tokens, List.map_cons, hmnemonics]
  cases ins <;> simp [tokens, operandTokens, cellTokens, hcomma, hopen, hclose, hplus, hnames]

theorem map_trimZeros_tokens {src : Instruction String}
    (hvalues : ∀ s ∈ src.values, Word.IsNumeral s) :
    (src.tokens id).map Word.trimZeros = (src.map Word.ofNumeral).tokens Word.text :=
  calc (src.tokens id).map Word.trimZeros
      = src.tokens (Word.trimZeros ∘ id) :=
        map_tokens (fun _ => trimZeros_of_mem_marks) trimZeros_name trimZeros_mnemonic id src
    _ = (src.map Word.trimZeros).tokens id := (tokens_map id Word.trimZeros src).symm
    _ = (src.map (Word.text ∘ Word.ofNumeral)).tokens id := by
        rw [map_congr fun s hs => Word.trimZeros_of_isNumeral (hvalues s hs)]
        rfl
    _ = (src.map Word.ofNumeral).tokens Word.text := by
        rw [tokens_map, tokens_map]
        rfl

theorem map_trimZeros_tokens_text (ins : Instruction Word) :
    (ins.tokens Word.text).map Word.trimZeros = ins.tokens Word.text := by
  rw [map_tokens (fun _ => trimZeros_of_mem_marks) trimZeros_name trimZeros_mnemonic]
  have hkeep : Word.trimZeros ∘ Word.text = Word.text := funext Word.trimZeros_text
  rw [hkeep]

/-- An instruction whose tokens begin with those of another has the same opcode. -/
theorem opcode_eq_of_tokens_prefix {ins ins' : Instruction Word}
    (h : ins.tokens Word.text <+: ins'.tokens Word.text) : ins.opcode = ins'.opcode := by
  obtain ⟨hmnemonic, hoperands⟩ := List.cons_prefix_cons.mp h
  have bracket_ne_name := fun r => (name_ne_bracket r).symm
  have bracket_ne_text := fun w => (text_ne_bracket w).symm
  have text_ne_name := fun r w => (name_ne_text r w).symm
  -- The forms of a move differ where the look-ahead inspects them, all others by mnemonic.
  cases ins <;> cases ins' <;>
    simp [opcode, Opcode.mnemonic, operandTokens, cellTokens, name_ne_bracket, bracket_ne_name,
      text_ne_bracket, bracket_ne_text, name_ne_text, text_ne_name] at hmnemonic hoperands ⊢

/-- No written form begins with another one. -/
theorem eq_of_tokens_prefix {ins ins' : Instruction Word}
    (h : ins.tokens Word.text <+: ins'.tokens Word.text) : ins = ins' := by
  have hop := opcode_eq_of_tokens_prefix h
  have hoperands := (List.cons_prefix_cons.mp h).2
  cases ins <;> cases ins' <;> try cases hop
  case exit.exit => rfl
  all_goals
    simpa [operandTokens, cellTokens, Register.name_injective.eq_iff,
      Word.text_injective.eq_iff]
      using hoperands

theorem ofCursor_eq_ok_iff {stream : List Token} {cursor : Nat} {ins : Instruction Word} :
    ofCursor stream cursor = .ok ins ↔
      ∃ src : Instruction String, src.Named ∧ (∀ s ∈ src.values, Word.IsNumeral s) ∧
        src.tokens id <+: (stream.drop cursor).map Token.text ∧
        src.map Word.ofNumeral = ins := by
  rw [ofCursor, Window.ofCursor]
  cases hrest : stream.drop cursor with
  | nil =>
      constructor
      · intro h
        cases h
      · rintro ⟨src, -, -, hspells, -⟩
        exact absurd (List.prefix_nil.mp hspells) (List.cons_ne_nil _ _)
  | cons mnemonic following => exact ofWindow_eq_ok_iff

theorem map_text_tokens_text (ins : Instruction Word) :
    (Source.tokens ins.text).map Token.text = ins.tokens Word.text :=
  Source.map_text_tokens_intercalate (List.cons_ne_nil _ _) fun _ =>
    blank_notMem_tokens (by decide) fun w _ => Word.blank_notMem_text (by decide) w

/-- The written form of an instruction reads as that instruction, if it reads at all. -/
theorem ofCursor_tokens_text_iff {ins ins' : Instruction Word} :
    ofCursor (Source.tokens ins.text) 0 = .ok ins' ↔ ins.Named ∧ ins' = ins := by
  rw [ofCursor_eq_ok_iff, List.drop_zero, map_text_tokens_text]
  constructor
  · rintro ⟨src, hnamed, hvalues, hspells, rfl⟩
    have htrimmed := hspells.map Word.trimZeros
    rw [map_trimZeros_tokens hvalues, map_trimZeros_tokens_text] at htrimmed
    have heq := eq_of_tokens_prefix htrimmed
    exact ⟨heq ▸ (named_map _ src).mpr hnamed, heq⟩
  · rintro ⟨hnamed, rfl⟩
    refine ⟨ins'.map Word.text, (named_map _ _).mpr hnamed, ?_, ?_, ?_⟩
    · intro s hs
      rw [values_map] at hs
      obtain ⟨w, -, rfl⟩ := List.mem_map.mp hs
      exact Word.isNumeral_text w
    · rw [tokens_map]
      exact List.prefix_rfl
    · rw [map_map]
      exact map_eq_self fun w _ => Word.ofNumeral_text w

/-- The texts of the tokens that an instruction takes at a position. -/
def textsAt (stream : List Token) (cursor count : Nat) : List String :=
  ((stream.drop cursor).take count).map Token.text

theorem exists_of_ofCursor {stream : List Token} {cursor : Nat} {ins : Instruction Word}
    (h : ofCursor stream cursor = .ok ins) :
    ∃ src : Instruction String, src.Named ∧ (∀ s ∈ src.values, Word.IsNumeral s) ∧
      textsAt stream cursor ins.tokenCount = src.tokens id ∧ src.map Word.ofNumeral = ins := by
  obtain ⟨src, hnamed, hvalues, hspells, rfl⟩ := ofCursor_eq_ok_iff.mp h
  refine ⟨src, hnamed, hvalues, ?_, rfl⟩
  rw [textsAt, List.map_take, tokenCount_map, ← length_tokens id]
  exact (List.prefix_iff_eq_take.mp hspells).symm

end Instruction

/-- An instruction and its written form determine each other, except that no form with the
instruction pointer is read.  What is read at a position is the written form up to zeros in
front of numerals, and nothing else in the stream takes part. -/
theorem Instruction.ofCursor_inverts_text (ins : Instruction Word) :
    (Source.tokens ins.text).length = ins.tokenCount ∧
      (∀ ins', ofCursor (Source.tokens ins.text) 0 = .ok ins' ↔ ins.Named ∧ ins' = ins) ∧
      ∀ stream cursor, ofCursor stream cursor = .ok ins →
        cursor + ins.tokenCount ≤ stream.length ∧
          " ".intercalate ((textsAt stream cursor ins.tokenCount).map Word.trimZeros) = ins.text ∧
          ∀ stream' cursor',
            textsAt stream' cursor' ins.tokenCount = textsAt stream cursor ins.tokenCount →
              ofCursor stream' cursor' = .ok ins := by
  refine ⟨?_, fun ins' => ofCursor_tokens_text_iff, ?_⟩
  · rw [← List.length_map (f := Token.text), map_text_tokens_text, length_tokens]
  intro stream cursor h
  obtain ⟨src, hnamed, hvalues, htexts, rfl⟩ := exists_of_ofCursor h
  refine ⟨?_, ?_, ?_⟩
  · have hlength := congrArg List.length htexts
    have hpos : 0 < (src.tokens id).length := List.length_pos_of_ne_nil (List.cons_ne_nil _ _)
    simp only [textsAt, List.length_map, List.length_take, List.length_drop, length_tokens,
      tokenCount_map] at hlength hpos ⊢
    omega
  · rw [htexts, map_trimZeros_tokens hvalues]
    rfl
  · intro stream' cursor' htexts'
    refine ofCursor_eq_ok_iff.mpr ⟨src, hnamed, hvalues, ?_, rfl⟩
    rw [← htexts, ← htexts', textsAt, List.map_take]
    exact List.take_prefix _ _

/-- Zeros in front of numerals are read over, and no form with the instruction pointer is
read. -/
theorem Instruction.ofCursor_inverts_text_zeros :
    (∀ ins', ofCursor (Source.tokens "mov eip , eax") 0 ≠ .ok ins') ∧
      ofCursor (Source.tokens "inc eax mov [ ebp + 007 ] , 00 exit") 2 =
        .ok (.storeValue .ebp 7 0) ∧
      ofCursor (Source.tokens "mov [ ebp + 007 ] , 00") 0 = .ok (.storeValue .ebp 7 0) ∧
      " ".intercalate (["mov", "[", "ebp", "+", "007", "]", ",", "00"].map Word.trimZeros) =
        "mov [ ebp + 7 ] , 0" := by
  have hread : ofCursor (Source.tokens "inc eax mov [ ebp + 007 ] , 00 exit") 2 =
      .ok (.storeValue .ebp 7 0) := by cbv
  have heip := (ofCursor_inverts_text (.copy .eip .eax)).2.1
  obtain ⟨-, htext, hlocal⟩ := (ofCursor_inverts_text (.storeValue .ebp 7 0)).2.2 _ _ hread
  refine ⟨?_, hread, ?_, ?_⟩
  · intro ins' h
    exact absurd ((heip ins').mp h).1 (by decide)
  · exact hlocal _ _ (by decide +kernel)
  · have htexts : textsAt (Source.tokens "inc eax mov [ ebp + 007 ] , 00 exit") 2 8 =
        ["mov", "[", "ebp", "+", "007", "]", ",", "00"] := by decide +kernel
    exact htexts ▸ htext

end WordMachine
