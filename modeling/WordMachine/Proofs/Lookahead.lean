import Mathlib
import WordMachine.Proofs.SourceForms
import WordMachine.Proofs.Unresolved

/-!
# Looking ahead

The opcode of an instruction is found in the tokens that the instruction takes.  Of each of
them the look-ahead asks whether it is a mnemonic, the name of a register or an opening
bracket.  A reference is none of these, and neither is the numeral that stands in its place
later.  So the opcode stays the same whatever the labels are resolved to, as long as no
declaration is dropped from the instruction.
-/

namespace WordMachine

/-- The texts that the look-ahead knows. -/
def IsKnown (text : String) : Prop :=
  Opcode.IsMnemonic text ∨ Register.IsName text ∨ text = "["

/-- Two texts that the look-ahead does not tell apart. -/
def LooksLike (s s' : String) : Prop := s = s' ∨ ¬ IsKnown s ∧ ¬ IsKnown s'

theorem isKnown_mnemonic (op : Opcode) : IsKnown op.mnemonic := .inl ⟨op, rfl⟩

theorem isKnown_bracket : IsKnown "[" := .inr (.inr rfl)

theorem isPlain_of_isKnown {s : String} (h : IsKnown s) : Token.IsPlain s := by
  obtain ⟨op, rfl⟩ | ⟨r, -, rfl⟩ | rfl := h
  · exact Token.isPlain_mnemonic op
  · exact Token.isPlain_name r
  · decide

theorem not_isKnown_of_isNumeral {s : String} (h : Word.IsNumeral s) : ¬ IsKnown s := by
  rintro (⟨op, rfl⟩ | hname | rfl)
  · exact not_isNumeral_mnemonic op h
  · exact not_isName_of_isNumeral h hname
  · exact not_isNumeral_mark (by decide) h

namespace LooksLike

variable {s s' k : String}

theorem eq_iff (h : LooksLike s s') (hk : IsKnown k) : s = k ↔ s' = k := by
  obtain rfl | ⟨hs, hs'⟩ := h
  · rfl
  · exact iff_of_false (fun heq => hs (heq ▸ hk)) fun heq => hs' (heq ▸ hk)

theorem isName_iff (h : LooksLike s s') : Register.IsName s ↔ Register.IsName s' := by
  refine exists_congr fun r => and_congr_right fun hr => ?_
  have hk : IsKnown r.name := .inr (.inl ⟨r, hr, rfl⟩)
  rw [eq_comm, h.eq_iff hk, eq_comm]

end LooksLike

/-- Resolving gives no token another look. -/
theorem SymbolTable.looksLike_of_resolves {table : SymbolTable} {t t' : Token}
    (h : table.Resolves t t') : LooksLike t.text t'.text := by
  obtain ⟨-, rfl⟩ | ⟨name, address, htext, -, -, rfl⟩ := cases_of_resolves h
  · exact .inl rfl
  · refine .inr ⟨?_, not_isKnown_of_isNumeral (Word.isNumeral_text address)⟩
    intro hknown
    exact Token.not_isPlain_sigil (by decide) name (htext ▸ isPlain_of_isKnown hknown)

namespace Opcode

variable {op : Opcode} {stream stream' : List Token} {cursor cursor' : Nat}

/-- The look-ahead goes the same way where it sees tokens that look alike. -/
theorem Suits.of_looksLike {w w' : Window}
    (hlike : ∀ n, n + 1 < op.tokenCount → ∀ s, w.text? n = some s →
      ∃ s', w'.text? n = some s' ∧ LooksLike s s')
    (h : op.Suits w) : op.Suits w' := by
  have hbracket : ∀ n, n + 1 < op.tokenCount → w.text? n = some "[" → w'.text? n = some "[" := by
    intro n hn htext
    obtain ⟨s', htext', hlike⟩ := hlike n hn _ htext
    rw [htext', (hlike.eq_iff isKnown_bracket).mp rfl]
  have hslot : ∀ (n : Nat) (P : String → Prop), n + 1 < op.tokenCount →
      (∀ s s', LooksLike s s' → P s → P s') → (∃ s, w.text? n = some s ∧ P s) →
        ∃ s, w'.text? n = some s ∧ P s := by
    rintro n P hn hP ⟨s, htext, hs⟩
    obtain ⟨s', htext', hlike⟩ := hlike n hn s htext
    exact ⟨s', htext', hP s s' hlike hs⟩
  have hname : ∀ s s', LooksLike s s' → Register.IsName s → Register.IsName s' :=
    fun _ _ hlike => hlike.isName_iff.mp
  have hvalue : ∀ s s', LooksLike s s' → ¬ Register.IsName s → ¬ Register.IsName s' :=
    fun _ _ hlike => mt hlike.isName_iff.mpr
  -- The last operand of a move is where its opcode looks furthest, so no case looks beyond it.
  cases op with
  | storeRegister => exact ⟨hbracket 0 (by decide) h.1, hslot 6 _ (by decide) hname h.2⟩
  | storeValue => exact ⟨hbracket 0 (by decide) h.1, hslot 6 _ (by decide) hvalue h.2⟩
  | load => exact ⟨hslot 0 _ (by decide) hname h.1, hbracket 2 (by decide) h.2⟩
  | copy => exact ⟨hslot 0 _ (by decide) hname h.1, hslot 2 _ (by decide) hname h.2⟩
  | set =>
      refine ⟨hslot 0 _ (by decide) hname h.1, hslot 2 _ (by decide) ?_ h.2⟩
      rintro s s' hlike ⟨hs, hopen⟩
      exact ⟨hvalue s s' hlike hs, mt (hlike.eq_iff isKnown_bracket).mpr hopen⟩
  | je | jmp | cmp | add | sub | inc | exit => trivial

/-- The opcode of an instruction is that of all windows whose tokens look like its own. -/
theorem ofCursor_of_looksLike (hop : ofCursor stream cursor = .ok op)
    (hlike : ∀ n < op.tokenCount, ∀ t, stream[cursor + n]? = some t →
      ∃ t', stream'[cursor' + n]? = some t' ∧ LooksLike t.text t'.text) :
    ofCursor stream' cursor' = .ok op := by
  have htext : ∀ (tokens : List Token) (position n : Nat) (t : Token),
      (⟨t, tokens.drop (position + 1)⟩ : Window).text? n =
        tokens[position + (n + 1)]?.map Token.text := by
    intro tokens position n t
    rw [Window.text?, List.getElem?_drop, Nat.add_right_comm, Nat.add_assoc]
  obtain ⟨t, ht, hop⟩ := ofCursor_eq_ok_iff.mp hop
  obtain ⟨hmnemonic, hsuits⟩ := ofWindow_eq_ok_iff.mp hop
  obtain ⟨t', ht', hfirst⟩ := hlike 0 op.tokenCount_pos t ht
  have hmnemonic' : t'.text = op.mnemonic :=
    (hfirst.eq_iff (isKnown_mnemonic op)).mp hmnemonic
  refine ofCursor_eq_ok_iff.mpr ⟨t', ht', ofWindow_eq_ok_iff.mpr ⟨hmnemonic', ?_⟩⟩
  apply hsuits.of_looksLike
  intro n hn s hs
  rw [htext, Option.map_eq_some_iff] at hs
  obtain ⟨u, hu, rfl⟩ := hs
  obtain ⟨u', hu', hlike⟩ := hlike (n + 1) hn u hu
  refine ⟨u'.text, ?_, hlike⟩
  rw [htext, hu']
  rfl

/-- Nothing but the tokens that an instruction takes has a part in its opcode. -/
theorem ofCursor_of_textsAt_prefix (hop : ofCursor stream cursor = .ok op)
    (hagree : Instruction.textsAt stream cursor op.tokenCount <+:
      (stream'.drop cursor').map Token.text) :
    ofCursor stream' cursor' = .ok op := by
  apply ofCursor_of_looksLike hop
  intro n hn t ht
  have htext : (Instruction.textsAt stream cursor op.tokenCount)[n]? = some t.text := by
    rw [Instruction.textsAt, List.getElem?_map, List.getElem?_take_of_lt hn, List.getElem?_drop, ht]
    rfl
  obtain ⟨hlt, hget⟩ := List.getElem?_eq_some_iff.mp htext
  have htext' := List.prefix_iff_getElem?.mp hagree n hlt
  rw [hget, List.getElem?_map, List.getElem?_drop, Option.map_eq_some_iff] at htext'
  obtain ⟨t', ht', heq⟩ := htext'
  exact ⟨t', ht', .inl heq.symm⟩

end Opcode

namespace SymbolTable

/-- Where a position of a stream is when the declarations in front of it have been dropped. -/
def shifted (stream : List Token) (cursor : Nat) : Nat :=
  cursor - (stream.take cursor).countP fun t => t.role = .declaration

/-- No declaration stands among some tokens at a position. -/
def Undeclared (stream : List Token) (cursor count : Nat) : Prop :=
  ∀ t ∈ (stream.drop cursor).take count, t.role ≠ .declaration

instance (stream : List Token) (cursor count : Nat) : Decidable (Undeclared stream cursor count) :=
  inferInstanceAs (Decidable (∀ t ∈ (stream.drop cursor).take count, t.role ≠ .declaration))

variable {table : SymbolTable} {stream resolved : List Token} {cursor count : Nat} {t : Token}

theorem shifted_eq (hcursor : cursor ≤ stream.length) :
    shifted stream cursor = (kept (stream.take cursor)).length := by
  have hsplit : (stream.take cursor).length =
      (stream.take cursor).countP (fun t => t.role = .declaration) +
        (kept (stream.take cursor)).length := by
    simpa [kept, List.countP_eq_length_filter] using
      List.length_eq_length_filter_add (l := stream.take cursor)
        fun t => decide (t.role = .declaration)
  rw [List.length_take_of_le hcursor] at hsplit
  rw [shifted]
  omega

/-- Over tokens without a declaration a position shifts as it stands. -/
theorem shifted_add (hinside : cursor + count ≤ stream.length)
    (hclear : Undeclared stream cursor count) :
    shifted stream (cursor + count) = shifted stream cursor + count := by
  have hkept : kept ((stream.drop cursor).take count) = (stream.drop cursor).take count := by
    apply List.filter_eq_self.mpr
    simpa [Undeclared] using hclear
  have hlength : ((stream.drop cursor).take count).length = count := by
    rw [List.length_take, List.length_drop]
    omega
  rw [shifted_eq hinside, shifted_eq (by omega), List.take_add, kept_append, List.length_append,
    hkept, hlength]

theorem shifted_succ (ht : stream[cursor]? = some t) (hrole : t.role = .declaration) :
    shifted stream (cursor + 1) = shifted stream cursor := by
  have hcursor := (List.getElem?_eq_some_iff.mp ht).1
  rw [shifted_eq hcursor, shifted_eq hcursor.le, List.take_add_one, ht, kept_append,
    Option.toList_some, kept_cons_of_declaration hrole, List.length_append]
  rfl

section

variable (h : table.resolve stream = .ok resolved)

include h

theorem shifted_length : shifted stream stream.length = resolved.length := by
  rw [shifted_eq (Nat.le_refl _), List.take_length, (resolve_eq_ok_iff.mp h).length_eq]

theorem shifted_le (hcursor : cursor ≤ stream.length) :
    shifted stream cursor ≤ resolved.length := by
  rw [shifted_eq hcursor, ← (resolve_eq_ok_iff.mp h).length_eq]
  exact ((List.take_sublist cursor stream).filter _).length_le

/-- A token that stays is found at the shifted position. -/
theorem exists_resolves_getElem? (ht : stream[cursor]? = some t) (hrole : t.role ≠ .declaration) :
    ∃ t', resolved[shifted stream cursor]? = some t' ∧ table.Resolves t t' := by
  obtain ⟨hcursor, hget⟩ := List.getElem?_eq_some_iff.mp ht
  have hresolves := resolve_eq_ok_iff.mp h
  rw [← List.take_append_drop cursor stream, kept_append] at hresolves
  have hrest := List.forall₂_drop (kept (stream.take cursor)).length hresolves
  rw [List.drop_left, ← shifted_eq hcursor.le, List.drop_eq_getElem_cons hcursor, hget,
    kept_cons_of_ne hrole, List.forall₂_cons_left_iff] at hrest
  obtain ⟨t', rest, hfirst, -, hdrop⟩ := hrest
  refine ⟨t', ?_, hfirst⟩
  rw [← List.head?_drop, hdrop]
  rfl

/-- Whatever the labels are resolved to, an instruction keeps its opcode. -/
theorem ofCursor_shifted {op : Opcode} (hop : Opcode.ofCursor stream cursor = .ok op)
    (hinside : cursor + op.tokenCount ≤ stream.length)
    (hclear : Undeclared stream cursor op.tokenCount) :
    Opcode.ofCursor resolved (shifted stream cursor) = .ok op := by
  apply Opcode.ofCursor_of_looksLike hop
  intro n hn t ht
  have hrole : t.role ≠ .declaration := by
    apply hclear
    rw [List.mem_iff_getElem?]
    exact ⟨n, by rw [List.getElem?_take_of_lt hn, List.getElem?_drop, ht]⟩
  have hbefore : Undeclared stream cursor n := fun u hu =>
    hclear u (List.take_subset_take_left _ hn.le hu)
  obtain ⟨t', ht', hresolves⟩ := exists_resolves_getElem? h ht hrole
  rw [shifted_add (by omega) hbefore] at ht'
  exact ⟨t', ht', looksLike_of_resolves hresolves⟩

end

/-- A declaration that is dropped from an instruction can make another one of it. -/
example : Opcode.ofCursor (Source.tokens "mov eax :a :b , [") 0 = .ok .set ∧
    (resolve {} (Source.tokens "mov eax :a :b , [") >>= fun stream => Opcode.ofCursor stream 0) =
      .ok .load := by
  constructor <;> cbv

end SymbolTable

end WordMachine
