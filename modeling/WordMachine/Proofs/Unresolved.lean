import Mathlib
import WordMachine.Proofs.Passes

/-!
# Operands before they are resolved

Resolving leaves a token as it is or turns a reference into a numeral.  The operands of
an instruction that the reader accepts were therefore operands of the source language
before.
-/

namespace WordMachine

namespace Instruction

variable {R : String → String → Prop} {texts : List String}

/-- A relation that fixes marks and names relates only a cell reference to a cell
reference. -/
theorem exists_of_forall₂_cellTokens {base : Register} {s : String}
    (hmark : ∀ mark ∈ marks, ∀ s, R s mark → s = mark)
    (hname : ∀ (r : Register) (s : String), R s r.name → s = r.name)
    (h : List.Forall₂ R texts (cellTokens base s)) :
    ∃ s', cellTokens base s' = texts ∧ R s' s := by
  obtain _ | ⟨hopen, _ | ⟨hbase, _ | ⟨hplus, _ | ⟨hs, _ | ⟨hclose, _ | _⟩⟩⟩⟩⟩ := h
  cases hmark "[" (by decide) _ hopen
  cases hname base _ hbase
  cases hmark "+" (by decide) _ hplus
  cases hmark "]" (by decide) _ hclose
  exact ⟨_, rfl, hs⟩

/-- The same for the operands of an instruction. -/
theorem exists_of_forall₂_operandTokens {src : Instruction String}
    (hmark : ∀ mark ∈ marks, ∀ s, R s mark → s = mark)
    (hname : ∀ (r : Register) (s : String), R s r.name → s = r.name)
    (h : List.Forall₂ R texts (src.operandTokens id)) :
    ∃ src' : Instruction String, src'.operandTokens id = texts ∧ src'.opcode = src.opcode ∧
      src'.registers = src.registers ∧ List.Forall₂ R src'.values src.values := by
  have hcomma := hmark "," (by decide)
  cases src with
  | je s =>
      obtain _ | ⟨hs, _ | _⟩ := h
      exact ⟨je _, rfl, rfl, rfl, .cons hs .nil⟩
  | jmp s =>
      obtain _ | ⟨hs, _ | _⟩ := h
      exact ⟨jmp _, rfl, rfl, rfl, .cons hs .nil⟩
  | cmp r s =>
      obtain _ | ⟨hr, _ | ⟨hmid, _ | ⟨hs, _ | _⟩⟩⟩ := h
      cases hname r _ hr
      cases hcomma _ hmid
      exact ⟨cmp r _, rfl, rfl, rfl, .cons hs .nil⟩
  | sub r s =>
      obtain _ | ⟨hr, _ | ⟨hmid, _ | ⟨hs, _ | _⟩⟩⟩ := h
      cases hname r _ hr
      cases hcomma _ hmid
      exact ⟨sub r _, rfl, rfl, rfl, .cons hs .nil⟩
  | set r s =>
      obtain _ | ⟨hr, _ | ⟨hmid, _ | ⟨hs, _ | _⟩⟩⟩ := h
      cases hname r _ hr
      cases hcomma _ hmid
      exact ⟨set r _, rfl, rfl, rfl, .cons hs .nil⟩
  | add r base s =>
      obtain _ | ⟨hr, _ | ⟨hmid, hcell⟩⟩ := h
      cases hname r _ hr
      cases hcomma _ hmid
      obtain ⟨s', rfl, hs⟩ := exists_of_forall₂_cellTokens hmark hname hcell
      exact ⟨add r base s', rfl, rfl, rfl, .cons hs .nil⟩
  | load r base s =>
      obtain _ | ⟨hr, _ | ⟨hmid, hcell⟩⟩ := h
      cases hname r _ hr
      cases hcomma _ hmid
      obtain ⟨s', rfl, hs⟩ := exists_of_forall₂_cellTokens hmark hname hcell
      exact ⟨load r base s', rfl, rfl, rfl, .cons hs .nil⟩
  | storeRegister base s r =>
      have hcell := List.forall₂_take_append _ _ _ h
      have hlast := List.forall₂_drop_append _ _ _ h
      obtain ⟨s', htake, hs⟩ := exists_of_forall₂_cellTokens hmark hname hcell
      rw [← List.take_append_drop (cellTokens base (id s)).length texts, ← htake]
      generalize texts.drop (cellTokens base (id s)).length = last at hlast ⊢
      obtain _ | ⟨hmid, _ | ⟨hr, _ | _⟩⟩ := hlast
      cases hname r _ hr
      cases hcomma _ hmid
      exact ⟨storeRegister base s' r, rfl, rfl, rfl, .cons hs .nil⟩
  | storeValue base s t =>
      have hcell := List.forall₂_take_append _ _ _ h
      have hlast := List.forall₂_drop_append _ _ _ h
      obtain ⟨s', htake, hs⟩ := exists_of_forall₂_cellTokens hmark hname hcell
      rw [← List.take_append_drop (cellTokens base (id s)).length texts, ← htake]
      generalize texts.drop (cellTokens base (id s)).length = last at hlast ⊢
      obtain _ | ⟨hmid, _ | ⟨ht, _ | _⟩⟩ := hlast
      cases hcomma _ hmid
      exact ⟨storeValue base s' _, rfl, rfl, rfl, .cons hs (.cons ht .nil)⟩
  | copy r source =>
      obtain _ | ⟨hr, _ | ⟨hmid, _ | ⟨hsource, _ | _⟩⟩⟩ := h
      cases hname r _ hr
      cases hcomma _ hmid
      cases hname source _ hsource
      exact ⟨copy r source, rfl, rfl, rfl, .nil⟩
  | inc r =>
      obtain _ | ⟨hr, _ | _⟩ := h
      cases hname r _ hr
      exact ⟨inc r, rfl, rfl, rfl, .nil⟩
  | exit =>
      cases h
      exact ⟨exit, rfl, rfl, rfl, .nil⟩

end Instruction

namespace Operand

/-- The operand that a text in a value slot spells. -/
def ofText (s : String) : Operand :=
  match s.toList with
  | '.' :: name => reference (String.ofList name)
  | _ => literal s

@[simp]
theorem ofText_stop (name : String) : ofText ("." ++ name) = reference name := by
  simp [ofText]

theorem ofText_of_isPlain {s : String} (h : Token.IsPlain s) : ofText s = literal s := by
  unfold ofText
  split
  · next heq => exact absurd (by simp [heq]) h.2
  · rfl

@[simp]
theorem text_ofText (s : String) : (ofText s).text = s := by
  unfold ofText
  split
  · next name heq =>
      apply String.toList_injective
      simp [text, heq]
  · rfl

end Operand

namespace Token

/-- The marks in front of a name. -/
def sigils : List String := [":", "."]

variable {t : Token} {sigil name : String}

/-- A text begins with a sigil or is plain. -/
theorem cases_text (text : String) :
    IsPlain text ∨ ∃ sigil ∈ sigils, ∃ name, text = sigil ++ name := by
  have hsigil : ∀ c, text.toList.head? = some c → ∃ name, text = String.singleton c ++ name := by
    intro c hc
    obtain ⟨rest, hrest⟩ := List.head?_eq_some_iff.mp hc
    refine ⟨String.ofList rest, String.toList_injective ?_⟩
    simp [hrest]
  by_cases hcolon : text.toList.head? = some ':'
  · exact .inr ⟨":", by simp [sigils], hsigil ':' hcolon⟩
  by_cases hstop : text.toList.head? = some '.'
  · exact .inr ⟨".", by simp [sigils], hsigil '.' hstop⟩
  · exact .inl ⟨hcolon, hstop⟩

theorem not_isPlain_sigil (hsigil : sigil ∈ sigils) (name : String) :
    ¬ IsPlain (sigil ++ name) := by
  fin_cases hsigil <;> simp [IsPlain]

theorem role_sigil (hsigil : sigil ∈ sigils) (name name' : String) (index : Nat) :
    (⟨sigil ++ name, index⟩ : Token).role = (⟨sigil ++ name', index⟩ : Token).role := by
  fin_cases hsigil
  · exact (role_colon name index).trans (role_colon name' index).symm
  · exact (role_stop name index).trans (role_stop name' index).symm

theorem labelName_sigil (hsigil : sigil ∈ sigils) (name : String) (index : Nat) :
    (⟨sigil ++ name, index⟩ : Token).labelName =
      if name = "" then .error (.malformed ⟨sigil ++ name, index⟩) else .ok name := by
  split_ifs with hname
  · subst hname
    fin_cases hsigil <;> simp [labelName, labelName?]
  · fin_cases hsigil
    · exact labelName_colon hname index
    · exact labelName_stop hname index

theorem exists_name_of_declaration (hrole : t.role = .declaration) :
    ∃ name, t.text = ":" ++ name := by
  obtain hplain | ⟨sigil, hsigil, name, htext⟩ := cases_text t.text
  · simp [role_eq_plain hplain] at hrole
  · obtain ⟨text, index⟩ := t
    subst htext
    fin_cases hsigil
    · exact ⟨name, rfl⟩
    · exact absurd hrole (by simp)

theorem exists_name_of_reference (hrole : t.role = .reference) :
    ∃ name, t.text = "." ++ name := by
  obtain hplain | ⟨sigil, hsigil, name, htext⟩ := cases_text t.text
  · simp [role_eq_plain hplain] at hrole
  · obtain ⟨text, index⟩ := t
    subst htext
    fin_cases hsigil
    · exact absurd hrole (by simp)
    · exact ⟨name, rfl⟩

theorem labelName_eq_ok_iff (hsigil : sigil ∈ sigils) {name' : String}
    (htext : t.text = sigil ++ name') : t.labelName = .ok name ↔ name' = name ∧ name ≠ "" := by
  obtain ⟨text, index⟩ := t
  subst htext
  rw [labelName_sigil hsigil]
  split_ifs with hname <;> grind

theorem text_eq_colon (hrole : t.role = .declaration) (h : t.labelName = .ok name) :
    t.text = ":" ++ name ∧ name ≠ "" := by
  obtain ⟨name', htext⟩ := exists_name_of_declaration hrole
  obtain ⟨rfl, hne⟩ := (labelName_eq_ok_iff (by decide) htext).mp h
  exact ⟨htext, hne⟩

theorem text_eq_stop (hrole : t.role = .reference) (h : t.labelName = .ok name) :
    t.text = "." ++ name ∧ name ≠ "" := by
  obtain ⟨name', htext⟩ := exists_name_of_reference hrole
  obtain ⟨rfl, hne⟩ := (labelName_eq_ok_iff (by decide) htext).mp h
  exact ⟨htext, hne⟩

theorem isPlain_of_role (hrole : t.role = .plain) : IsPlain t.text := by
  unfold role at hrole
  constructor <;> intro hhead <;> obtain ⟨rest, hrest⟩ := List.head?_eq_some_iff.mp hhead <;>
    simp [hrest] at hrole

end Token

namespace SymbolTable

variable {table : SymbolTable}

theorem mem_names_of_address? {name : String} {address : Word}
    (h : table.address? name = some address) : name ∈ table.names := by
  by_contra hname
  rw [← find?_eq_none_iff] at hname
  simp [address?, hname] at h

/-- A token is resolved to itself, or it refers to a name of the table and is resolved to
the numeral of its address. -/
theorem cases_of_resolves {t t' : Token} (h : table.Resolves t t') :
    (Token.IsPlain t.text ∧ t = t') ∨
      ∃ name address, t.text = "." ++ name ∧ name ≠ "" ∧
        table.address? name = some address ∧ t' = ⟨address.text, t.index⟩ := by
  cases hrole : t.role with
  | declaration => simp [Resolves, hrole] at h
  | plain => exact .inl ⟨Token.isPlain_of_role hrole, by simpa [Resolves, hrole] using h⟩
  | reference =>
      simp only [Resolves, hrole, resolveToken] at h
      obtain ⟨name, hname, h⟩ := bind_eq_ok_iff.mp h
      obtain ⟨htext, hne⟩ := Token.text_eq_stop hrole hname
      cases haddress : table.address? name with
      | none => simp [haddress] at h
      | some address =>
          simp only [haddress, Except.ok.injEq] at h
          exact .inr ⟨name, address, htext, hne, haddress, h.symm⟩

/-- A token that does not become a numeral keeps its text. -/
theorem text_eq_of_resolves {t t' : Token} (h : table.Resolves t t')
    (ht' : ¬ Word.IsNumeral t'.text) : t.text = t'.text := by
  obtain ⟨-, rfl⟩ | ⟨_, address, _, _, _, rfl⟩ := cases_of_resolves h
  · rfl
  · exact absurd (Word.isNumeral_text address) ht'

theorem isPlain_of_resolves {t t' : Token} (h : table.Resolves t t') :
    Token.IsPlain t'.text := by
  obtain ⟨hplain, rfl⟩ | ⟨_, address, _, _, _, rfl⟩ := cases_of_resolves h
  · exact hplain
  · exact Token.isPlain_of_isNumeral (Word.isNumeral_text address)

/-- What resolves to a numeral is an operand. -/
theorem wellFormed_of_resolves {t t' : Token} (h : table.Resolves t t')
    (ht' : Word.IsNumeral t'.text) : (Operand.ofText t.text).WellFormed table.names := by
  obtain ⟨hplain, rfl⟩ | ⟨name, address, htext, hne, haddress, -⟩ := cases_of_resolves h
  · rw [Operand.ofText_of_isPlain hplain]
    exact ht'
  · rw [htext, Operand.ofText_stop]
    exact ⟨hne, mem_names_of_address? haddress⟩

/-- The operands of an instruction as they were before they were resolved. -/
theorem exists_source_operands {operands operands' : List Token} {src : Instruction String}
    (hnamed : src.Named) (hvalues : ∀ s ∈ src.values, Word.IsNumeral s)
    (h : List.Forall₂ table.Resolves operands operands')
    (hspells : operands'.map Token.text = src.operandTokens id) :
    ∃ ins : Instruction Operand, operands.map Token.text = ins.operandTokens Operand.text ∧
      ins.opcode = src.opcode ∧ (Item.instruction ins).WellFormed table.names := by
  let R : String → String → Prop := fun s s' =>
    (¬ Word.IsNumeral s' → s = s') ∧
      (Word.IsNumeral s' → (Operand.ofText s).WellFormed table.names)
  have hR : List.Forall₂ R (operands.map Token.text) (src.operandTokens id) := by
    rw [← hspells, List.forall₂_map_left_iff, List.forall₂_map_right_iff]
    exact h.imp fun _ _ ht => ⟨text_eq_of_resolves ht, wellFormed_of_resolves ht⟩
  obtain ⟨src', htokens, hopcode, hregisters, hsame⟩ :=
    Instruction.exists_of_forall₂_operandTokens
      (fun mark hmark s hs => hs.1 (not_isNumeral_mark hmark))
      (fun r s hs => hs.1 (not_isNumeral_name r)) hR
  refine ⟨src'.map Operand.ofText, ?_, (Instruction.opcode_map _ _).trans hopcode, ?_, ?_⟩
  · have hid : Operand.text ∘ Operand.ofText = id := by
      funext s
      exact Operand.text_ofText s
    rw [Instruction.operandTokens_map, hid, htokens]
  · rwa [Instruction.named_map, Instruction.Named, hregisters]
  · intro v hv
    rw [Instruction.values_map] at hv
    obtain ⟨s, hs, rfl⟩ := List.mem_map.mp hv
    obtain ⟨i, rfl⟩ := List.mem_iff_get.mp hs
    have hi : i < src.values.length := hsame.length_eq ▸ i.isLt
    exact (hsame.get i.isLt hi).2 (hvalues _ (List.get_mem src.values ⟨i, hi⟩))

end SymbolTable

end WordMachine
