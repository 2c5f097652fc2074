import Mathlib
import WordMachine.Proofs.Outline
import WordMachine.Proofs.Reading
import WordMachine.Proofs.Words

/-!
# The passes over an outline

Each pass is followed over the tokens of an outline.  The label pass accepts them if
no name is declared twice, and gives the table of the outline.  Resolving writes the
instructions with numerals in all value slots.  Reading them succeeds if they fit in
memory, and gives the image of the outline.
-/

namespace WordMachine

namespace Token

@[simp]
theorem role_colon (name : String) (index : Nat) :
    (⟨":" ++ name, index⟩ : Token).role = .declaration := by
  simp [role]

@[simp]
theorem role_stop (name : String) (index : Nat) :
    (⟨"." ++ name, index⟩ : Token).role = .reference := by
  simp [role]

/-- A text that begins with no sigil. -/
def IsPlain (text : String) : Prop :=
  text.toList.head? ≠ some ':' ∧ text.toList.head? ≠ some '.'

instance (text : String) : Decidable (IsPlain text) :=
  inferInstanceAs (Decidable (_ ∧ _))

theorem role_eq_plain {t : Token} (h : IsPlain t.text) : t.role = .plain := by
  obtain ⟨hcolon, hstop⟩ := h
  unfold role
  split
  · next heq => simp [heq] at hcolon
  · next heq => simp [heq] at hstop
  · rfl

theorem role_ne_declaration {s : String} (h : IsPlain s) (index : Nat) :
    (⟨s, index⟩ : Token).role ≠ .declaration := by
  rw [role_eq_plain (t := ⟨s, index⟩) h]
  decide

theorem isPlain_of_isNumeral {s : String} (h : Word.IsNumeral s) : IsPlain s := by
  have hdigits : ∀ c, s.toList.head? = some c → c.isDigit := fun c hc =>
    h.2.1 c (List.mem_of_mem_head? hc)
  constructor
  · intro hcolon
    exact absurd (hdigits _ hcolon) (by decide)
  · intro hstop
    exact absurd (hdigits _ hstop) (by decide)

theorem isPlain_of_mem_marks {s : String} (h : s ∈ marks) : IsPlain s := by
  fin_cases h <;> decide

theorem isPlain_name (r : Register) : IsPlain r.name := by
  cases r <;> decide

theorem isPlain_mnemonic (op : Opcode) : IsPlain op.mnemonic := by
  cases op <;> decide

theorem labelName_colon {name : String} (h : name ≠ "") (index : Nat) :
    (⟨":" ++ name, index⟩ : Token).labelName = .ok name := by
  simp [labelName, labelName?, h]

theorem labelName_stop {name : String} (h : name ≠ "") (index : Nat) :
    (⟨"." ++ name, index⟩ : Token).labelName = .ok name := by
  simp [labelName, labelName?, h]

end Token

namespace Instruction

variable {V : Type}

theorem length_operandTokens (text : V → String) (ins : Instruction V) :
    (ins.operandTokens text).length + 1 = ins.tokenCount :=
  length_tokens text ins

/-- The window at the first token of an instruction and what is left behind it. -/
theorem numbered_tokens (text : V → String) (ins : Instruction V) (index : Nat)
    (rest : List String) :
    ∃ following, Token.numbered index (ins.tokens text ++ rest) =
        ⟨ins.opcode.mnemonic, index⟩ :: following ∧
      following.drop (ins.tokenCount - 1) = Token.numbered (index + ins.tokenCount) rest ∧
      following.length + 1 = ins.tokenCount + rest.length ∧
      Window.Spells ⟨⟨ins.opcode.mnemonic, index⟩, following⟩ (ins.tokens text) := by
  refine ⟨Token.numbered (index + 1) (ins.operandTokens text ++ rest), rfl, ?_, ?_, ?_⟩
  · have hlength := length_operandTokens text ins
    rw [Token.numbered_append, List.drop_append_of_le_length (by simp; omega),
      List.drop_eq_nil_of_le (by simp; omega), List.nil_append, ← hlength]
    congr 1
    omega
  · have hlength := length_operandTokens text ins
    simp only [Token.length_numbered, List.length_append]
    omega
  · rw [tokens, Window.spells_cons_iff]
    exact ⟨rfl, by simp [Window.Follows]⟩

end Instruction

/-! ## The label pass -/

theorem Opcode.role_ne_declaration {w : Window} {op : Opcode} (hop : ofWindow w = .ok op) :
    w.mnemonic.role ≠ .declaration := by
  have hplain := Token.isPlain_mnemonic op
  rw [← (ofWindow_eq_ok_iff.mp hop).1] at hplain
  exact Token.role_ne_declaration hplain w.mnemonic.index

namespace Operand

theorem not_isName_text {names : List String} {v : Operand} (h : v.WellFormed names) :
    ¬ Register.IsName v.text := by
  cases v with
  | literal digits => exact not_isName_of_isNumeral h
  | reference name =>
      intro ⟨r, _, hr⟩
      have hplain := Token.role_eq_plain (t := ⟨r.name, 0⟩) (Token.isPlain_name r)
      rw [hr, text, Token.role_stop] at hplain
      cases hplain

theorem text_ne_mark {names : List String} {v : Operand} (h : v.WellFormed names)
    {mark : String} (hmark : mark ∈ marks) : v.text ≠ mark := by
  intro heq
  cases v with
  | literal digits => exact not_isNumeral_mark hmark (heq ▸ h)
  | reference name =>
      have hplain := Token.role_eq_plain (t := ⟨mark, 0⟩) (Token.isPlain_of_mem_marks hmark)
      rw [← heq, text, Token.role_stop] at hplain
      cases hplain

end Operand

theorem Item.opcode_of_spells {names : List String} {ins : Instruction Operand}
    (h : (Item.instruction ins).WellFormed names) {w : Window}
    (hw : w.Spells (ins.tokens Operand.text)) : Opcode.ofWindow w = .ok ins.opcode := by
  obtain ⟨hnamed, hvalues⟩ := h
  have hsrc : Opcode.ofWindow w = .ok (ins.map Operand.text).opcode := by
    apply Instruction.opcode_of_spells
    · exact (Instruction.named_map Operand.text ins).mpr hnamed
    · intro s hs
      rw [Instruction.values_map] at hs
      obtain ⟨v, hv, rfl⟩ := List.mem_map.mp hs
      have hwf := hvalues v hv
      exact ⟨Operand.not_isName_text hwf, Operand.text_ne_mark hwf (by decide)⟩
    · rwa [Instruction.tokens_map]
  rwa [Instruction.opcode_map] at hsrc

namespace SymbolTable

def names (table : SymbolTable) : List String := table.labels.map Label.name

theorem find?_eq_none_iff {table : SymbolTable} {name : String} :
    table.find? name = none ↔ name ∉ table.names := by
  simp [find?, names]

theorem declare_eq_ok_iff {table table' : SymbolTable} {l : Label} :
    table.declare l = .ok table' ↔ l.name ∉ table.names ∧ ⟨table.labels ++ [l]⟩ = table' := by
  rw [← find?_eq_none_iff, declare]
  cases table.find? l.name <;> simp

/-- The label pass enters a declaration with the address that it has come to, if the name is
new. -/
theorem scan_declaration (table : SymbolTable) (address : Word) (index : Nat) {name : String}
    (hname : name ≠ "") (rest : List Token) :
    table.scan address (⟨":" ++ name, index⟩ :: rest) = (do
      let table ← table.declare ⟨name, address, index⟩
      table.scan address rest) := by
  rw [scan, if_pos (Token.role_colon name index), Token.labelName_colon hname]
  rfl

/-- The label pass skips an instruction and counts its words. -/
theorem scan_of_ofWindow {t : Token} {rest : List Token} {op : Opcode}
    (hop : Opcode.ofWindow ⟨t, rest⟩ = .ok op) (hinside : op.tokenCount ≤ rest.length + 1)
    (table : SymbolTable) (address : Word) :
    table.scan address (t :: rest) =
      table.scan (address + UInt64.ofNat op.wordCount) (rest.drop (op.tokenCount - 1)) := by
  rw [scan, if_neg (Opcode.role_ne_declaration hop), hop, ok_bind, if_neg (Nat.not_lt.mpr hinside)]

/-- It passes over an instruction of the outline and moves the address behind its words. -/
theorem scan_instruction {names : List String} {ins : Instruction Operand}
    (h : (Item.instruction ins).WellFormed names) (table : SymbolTable) (address : Word)
    (index : Nat) (rest : List String) :
    table.scan address (Token.numbered index (ins.tokens Operand.text ++ rest)) =
      table.scan (address + UInt64.ofNat ins.wordCount)
        (Token.numbered (index + ins.tokenCount) rest) := by
  obtain ⟨following, hstream, hdrop, hlength, hspells⟩ :=
    ins.numbered_tokens Operand.text index rest
  have hop := Item.opcode_of_spells h hspells
  have hinside : ins.opcode.tokenCount ≤ following.length + 1 := by
    rw [hlength]
    exact Nat.le_add_right _ _
  rw [hstream, scan_of_ofWindow hop hinside, hdrop]

/-- The label pass over an outline accepts names that are all new, and ends behind its
last instruction. -/
theorem scan_tokens {names : List String} {outline : Outline}
    (h : ∀ item ∈ outline, item.WellFormed names) {table : SymbolTable}
    (htable : table.names.Nodup) (address index : Nat) {result : SymbolTable × Word} :
    table.scan (UInt64.ofNat address) (Token.numbered index outline.tokens) = .ok result ↔
      (table.names ++ outline.names).Nodup ∧
        (⟨table.labels ++ Outline.labelsFrom address index outline⟩,
          UInt64.ofNat (address + outline.wordCount)) = result := by
  induction outline generalizing table address index with
  | nil => simp [Token.numbered, scan, htable, Outline.labelsFrom]
  | cons item rest ih =>
      obtain ⟨hitem, hrest⟩ := List.forall_mem_cons.mp h
      cases item with
      | declaration name =>
          rw [Outline.tokens_declaration, Token.numbered, scan_declaration table _ _ hitem,
            bind_eq_ok_iff]
          simp only [declare_eq_ok_iff, Outline.names_declaration]
          by_cases hnew : name ∈ table.names
          · have hdup : ¬ (table.names ++ name :: Outline.names rest).Nodup := fun hnodup =>
              (List.nodup_append.mp hnodup).2.2 name hnew name (by simp) rfl
            simp [hnew, hdup]
          · have hnames : (⟨table.labels ++ [⟨name, UInt64.ofNat address, index⟩]⟩ :
                SymbolTable).names = table.names ++ [name] := by simp [SymbolTable.names]
            have hnodup : (table.names ++ [name]).Nodup := by
              simpa [List.nodup_append] using ⟨htable, fun a ha heq => hnew (heq ▸ ha)⟩
            rw [← hnames] at hnodup
            simp [hnew, ih hrest hnodup, hnames, Outline.labelsFrom]
      | instruction ins =>
          rw [Outline.tokens_instruction, scan_instruction hitem, ← UInt64.ofNat_add,
            ih hrest htable]
          simp [Outline.labelsFrom, Nat.add_assoc]

end SymbolTable

/-! ## Resolving -/

namespace SymbolTable

/-- Whether a token is what the table makes of another one. -/
def Resolves (table : SymbolTable) (t t' : Token) : Prop :=
  match t.role with
  | .declaration => False
  | .reference => table.resolveToken t = .ok t'
  | .plain => t = t'

def kept (stream : List Token) : List Token := stream.filter fun t => t.role ≠ .declaration

theorem kept_cons_of_declaration {t : Token} (ht : t.role = .declaration) (rest : List Token) :
    kept (t :: rest) = kept rest := by
  rw [kept, List.filter_cons_of_neg (by simp [ht])]
  rfl

theorem kept_cons_of_ne {t : Token} (ht : t.role ≠ .declaration) (rest : List Token) :
    kept (t :: rest) = t :: kept rest := by
  rw [kept, List.filter_cons_of_pos (by simp [ht])]
  rfl

/-- Resolving drops the declarations and takes the other tokens one by one. -/
theorem resolve_eq_ok_iff {table : SymbolTable} {stream resolved : List Token} :
    table.resolve stream = .ok resolved ↔
      List.Forall₂ table.Resolves (kept stream) resolved := by
  induction stream generalizing resolved with
  | nil => simp [resolve, kept, eq_comm]
  | cons t rest ih =>
      rw [resolve]
      cases hrole : t.role with
      | declaration =>
          rw [kept_cons_of_declaration hrole]
          exact ih
      | reference =>
          rw [kept_cons_of_ne (by simp [hrole])]
          simp only [bind_eq_ok_iff, ih, pure_eq_ok_iff, List.forall₂_cons_left_iff, Resolves,
            hrole]
          grind
      | plain =>
          rw [kept_cons_of_ne (by simp [hrole])]
          simp only [bind_eq_ok_iff, ih, pure_eq_ok_iff, List.forall₂_cons_left_iff, Resolves,
            hrole]
          grind

theorem kept_append (stream rest : List Token) : kept (stream ++ rest) = kept stream ++ kept rest :=
  List.filter_append stream rest

/-- What resolves is no declaration. -/
theorem kept_of_forall₂ {table : SymbolTable} {stream resolved : List Token}
    (h : List.Forall₂ table.Resolves stream resolved) : kept stream = stream := by
  induction h with
  | nil => rfl
  | @cons t t' _ _ hresolves _ ih =>
      have hrole : t.role ≠ .declaration := by
        intro hdeclaration
        simp [Resolves, hdeclaration] at hresolves
      rw [kept_cons_of_ne hrole, ih]

theorem forall₂_numbered {R : Token → Token → Prop} {texts texts' : List String}
    (h : List.Forall₂ (fun s s' => ∀ i, R ⟨s, i⟩ ⟨s', i⟩) texts texts') (index : Nat) :
    List.Forall₂ R (Token.numbered index texts) (Token.numbered index texts') := by
  induction h generalizing index with
  | nil => exact .nil
  | cons hfirst _ ih => exact .cons (hfirst index) (ih (index + 1))

end SymbolTable

/-- Two ways to write the values of an instruction give token lists that agree in all
other places. -/
theorem Instruction.forall₂_tokens {V : Type} {R : String → String → Prop}
    {text text' : V → String} {ins : Instruction V}
    (hmnemonic : ∀ op : Opcode, R op.mnemonic op.mnemonic) (hname : ∀ r : Register, R r.name r.name)
    (hmark : ∀ s ∈ marks, R s s) (hvalue : ∀ v ∈ ins.values, R (text v) (text' v)) :
    List.Forall₂ R (ins.tokens text) (ins.tokens text') := by
  simp only [marks, List.forall_mem_cons] at hmark
  cases ins <;>
    simp_all [tokens, operandTokens, cellTokens, values]

namespace Outline

/-- The numeral that an operand is resolved to. -/
def numeral (outline : Outline) : Operand → String
  | .literal digits => digits
  | .reference name => Word.text (UInt64.ofNat (outline.address name))

@[simp]
theorem ofNumeral_numeral (outline : Outline) (v : Operand) :
    Word.ofNumeral (outline.numeral v) = outline.word v := by
  cases v <;> simp [numeral, word]

theorem isNumeral_numeral {names : List String} {v : Operand} (h : v.WellFormed names)
    (outline : Outline) : Word.IsNumeral (outline.numeral v) := by
  cases v with
  | literal digits => exact h
  | reference name => exact Word.isNumeral_text _

/-- The instructions of an outline with numerals in their value slots. -/
def resolved (whole part : Outline) : List (Instruction String) :=
  part.code.map (Instruction.map whole.numeral)

theorem map_ofNumeral_resolved (whole part : Outline) :
    (whole.resolved part).map (Instruction.map Word.ofNumeral) =
      part.code.map (Instruction.map whole.word) := by
  simp only [resolved, List.map_map, Function.comp_def, Instruction.map_map, ofNumeral_numeral]

theorem sum_wordCount_resolved (whole part : Outline) :
    ((whole.resolved part).map Instruction.wordCount).sum = part.wordCount := by
  simp only [resolved, List.map_map, Function.comp_def, Instruction.wordCount_map,
    wordCount_eq_sum_code]

theorem mem_code_iff {outline : Outline} {ins : Instruction Operand} :
    ins ∈ outline.code ↔ .instruction ins ∈ outline := by
  induction outline with
  | nil => simp
  | cons item rest ih => cases item <;> simp [ih]

theorem WellFormed.instruction {outline : Outline} (hwf : outline.WellFormed)
    {ins : Instruction Operand} (hins : ins ∈ outline.code) :
    (Item.instruction ins).WellFormed outline.names :=
  hwf.items _ (mem_code_iff.mp hins)

theorem readable_resolved {names : List String} {part : Outline}
    (h : ∀ item ∈ part, item.WellFormed names) (whole : Outline) :
    ∀ ins ∈ whole.resolved part, ins.Named ∧ ∀ s ∈ ins.values, Word.IsNumeral s := by
  intro ins hins
  obtain ⟨source, hsource, rfl⟩ := List.mem_map.mp hins
  obtain ⟨hnamed, hvalues⟩ := h _ (mem_code_iff.mp hsource)
  refine ⟨(Instruction.named_map _ _).mpr hnamed, ?_⟩
  intro s hs
  rw [Instruction.values_map] at hs
  obtain ⟨v, hv, rfl⟩ := List.mem_map.mp hs
  exact isNumeral_numeral (hvalues v hv) whole

variable {names : List String} {whole part : Outline} {table : SymbolTable}

theorem resolves_operand (htable : ∀ name ∈ names,
      table.address? name = some (UInt64.ofNat (whole.address name)))
    {v : Operand} (hv : v.WellFormed names) (index : Nat) :
    table.Resolves ⟨v.text, index⟩ ⟨whole.numeral v, index⟩ := by
  cases v with
  | literal digits =>
      have hplain := Token.role_eq_plain (t := ⟨digits, index⟩) (Token.isPlain_of_isNumeral hv)
      simp [SymbolTable.Resolves, Operand.text, hplain, numeral]
  | reference name =>
      obtain ⟨hne, hname⟩ := hv
      simp [SymbolTable.Resolves, Operand.text, SymbolTable.resolveToken,
        Token.labelName_stop hne, htable name hname, ok_bind, numeral]

theorem resolves_of_isPlain {s : String} (hs : Token.IsPlain s) (index : Nat) :
    table.Resolves ⟨s, index⟩ ⟨s, index⟩ := by
  simp [SymbolTable.Resolves, Token.role_eq_plain (t := ⟨s, index⟩) hs]

/-- The references of an instruction are resolved to the addresses of their labels. -/
theorem resolves_instruction (htable : ∀ name ∈ names,
      table.address? name = some (UInt64.ofNat (whole.address name)))
    {ins : Instruction Operand} (h : (Item.instruction ins).WellFormed names) (index : Nat) :
    List.Forall₂ table.Resolves (Token.numbered index (ins.tokens Operand.text))
      (Token.numbered index (ins.tokens whole.numeral)) := by
  apply SymbolTable.forall₂_numbered
  apply Instruction.forall₂_tokens
  · exact fun op => resolves_of_isPlain (Token.isPlain_mnemonic op)
  · exact fun r => resolves_of_isPlain (Token.isPlain_name r)
  · exact fun s hs => resolves_of_isPlain (Token.isPlain_of_mem_marks hs)
  · exact fun v hv => resolves_operand htable (h.2 v hv)

/-- Resolving an outline leaves its instructions with numerals. -/
theorem resolve_tokens (whole : Outline) (htable : ∀ name ∈ names,
      table.address? name = some (UInt64.ofNat (whole.address name)))
    (h : ∀ item ∈ part, item.WellFormed names) (index : Nat) :
    ∃ stream, table.resolve (Token.numbered index part.tokens) = .ok stream ∧
      stream.map Token.text = (whole.resolved part).flatMap (Instruction.tokens id) := by
  simp only [SymbolTable.resolve_eq_ok_iff]
  induction part generalizing index with
  | nil => exact ⟨[], .nil, rfl⟩
  | cons item rest ih =>
      obtain ⟨hitem, hrest⟩ := List.forall_mem_cons.mp h
      cases item with
      | declaration name =>
          obtain ⟨stream, hstream, htexts⟩ := ih hrest (index + 1)
          refine ⟨stream, ?_, htexts⟩
          simpa [Token.numbered, SymbolTable.kept] using hstream
      | instruction ins =>
          obtain ⟨stream, hstream, htexts⟩ := ih hrest (index + ins.tokenCount)
          have hins := resolves_instruction htable hitem index
          refine ⟨Token.numbered index (ins.tokens whole.numeral) ++ stream, ?_, ?_⟩
          · rw [tokens_instruction, Token.numbered_append, SymbolTable.kept_append,
              SymbolTable.kept_of_forall₂ hins, Instruction.length_tokens]
            exact List.rel_append hins hstream
          · simp [htexts, resolved]

end Outline

namespace Instruction

section

variable {capacity used : Nat} {t : Token} {rest : List Token} {ins : Instruction Word}

theorem listOfTokens_cons_of_error {cause : SourceError}
    (hread : ofWindow ⟨t, rest⟩ = .error cause) :
    listOfTokens capacity used (t :: rest) = .error cause := by
  rw [listOfTokens, hread]
  rfl

theorem listOfTokens_cons_of_full (hread : ofWindow ⟨t, rest⟩ = .ok ins)
    (hfull : capacity < used + ins.wordCount) :
    listOfTokens capacity used (t :: rest) =
      .error (.outOfMemory (used + ins.wordCount) capacity) := by
  rw [listOfTokens, hread, ok_bind, if_pos hfull]
  rfl

theorem listOfTokens_cons_of_fits (hread : ofWindow ⟨t, rest⟩ = .ok ins)
    (hfits : used + ins.wordCount ≤ capacity) :
    listOfTokens capacity used (t :: rest) =
      (listOfTokens capacity (used + ins.wordCount) (rest.drop (ins.tokenCount - 1))).map
        (ins :: ·) := by
  rw [listOfTokens, hread, ok_bind, if_neg (Nat.not_lt.mpr hfits)]
  rfl

theorem listOfTokens_cons_eq_ok_iff {code : List (Instruction Word)} :
    listOfTokens capacity used (t :: rest) = .ok code ↔
      ∃ ins code', ofWindow ⟨t, rest⟩ = .ok ins ∧ used + ins.wordCount ≤ capacity ∧
        listOfTokens capacity (used + ins.wordCount) (rest.drop (ins.tokenCount - 1)) = .ok code' ∧
        ins :: code' = code := by
  cases hread : ofWindow ⟨t, rest⟩ with
  | error cause => simp [listOfTokens_cons_of_error hread]
  | ok ins =>
      rcases Nat.lt_or_ge capacity (used + ins.wordCount) with hfull | hfits
      · simp [listOfTokens_cons_of_full hread hfull, Nat.not_le.mpr hfull]
      · simp [listOfTokens_cons_of_fits hread hfits, map_eq_ok_iff, hfits]

end

/-- Instructions with numerals in their value slots are read one after the other, as far
as there is memory. -/
theorem listOfTokens_eq_ok_iff {src : List (Instruction String)}
    (h : ∀ ins ∈ src, ins.Named ∧ ∀ s ∈ ins.values, Word.IsNumeral s) {capacity used : Nat}
    (hused : used ≤ capacity) {stream : List Token}
    (hstream : stream.map Token.text = src.flatMap (tokens id))
    {code : List (Instruction Word)} :
    listOfTokens capacity used stream = .ok code ↔
      used + (src.map wordCount).sum ≤ capacity ∧ src.map (map Word.ofNumeral) = code := by
  induction src generalizing used stream code with
  | nil =>
      have hnil : stream = [] := by simpa using hstream
      simp [hnil, listOfTokens, hused]
  | cons ins src ih =>
      obtain ⟨⟨hnamed, hvalues⟩, hsrc⟩ := List.forall_mem_cons.mp h
      obtain ⟨t, rest, rfl⟩ : ∃ t rest, stream = t :: rest := by
        cases stream with
        | nil => simp [tokens] at hstream
        | cons t rest => exact ⟨t, rest, rfl⟩
      have hspells : Window.Spells ⟨t, rest⟩ (ins.tokens id) := by
        rw [Window.Spells, ← List.map_cons, hstream]
        exact List.prefix_append _ _
      have hrest : (rest.drop (ins.tokenCount - 1)).map Token.text = src.flatMap (tokens id) := by
        have htail : rest.map Token.text = ins.operandTokens id ++ src.flatMap (tokens id) :=
          (List.cons.inj hstream).2
        rw [List.map_drop, htail, ← length_operandTokens id ins, Nat.add_sub_cancel,
          List.drop_left]
      have hread := ofWindow_of_spells hnamed hvalues hspells
      rw [listOfTokens_cons_eq_ok_iff]
      constructor
      · intro hok
        obtain ⟨ins', code', hins', hfits, hcode', hcode⟩ := hok
        rw [hread, Except.ok.injEq] at hins'
        subst hins'
        rw [wordCount_map] at hfits hcode'
        obtain ⟨hall, hmap⟩ := (ih hsrc hfits (by simpa using hrest)).mp hcode'
        simp only [List.map_cons, List.sum_cons]
        exact ⟨by omega, hmap ▸ hcode⟩
      · intro hok
        obtain ⟨hall, hmap⟩ := hok
        simp only [List.map_cons, List.sum_cons] at hall
        refine ⟨ins.map Word.ofNumeral, src.map (map Word.ofNumeral), hread, ?_, ?_, hmap⟩
        · rw [wordCount_map]
          omega
        · rw [wordCount_map]
          apply (ih hsrc (by omega) (by simpa using hrest)).mpr
          exact ⟨by omega, rfl⟩

end Instruction

end WordMachine
