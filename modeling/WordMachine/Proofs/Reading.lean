import Mathlib
import WordMachine.Instruction.OfTokens
import WordMachine.Proofs.Except
import WordMachine.Proofs.Slots

/-!
# Reading instructions

The reader of a window succeeds on exactly the source forms of instructions, whatever
comes after them.  The opcode alone is found with less: its mnemonic and the texts
that the look-ahead of a `mov` inspects.
-/

namespace WordMachine

theorem Token.isRegister_iff {t : Token} : t.isRegister = true ↔ Register.IsName t.text := by
  simp [Token.isRegister, Option.isSome_iff_exists, Register.ofName?_eq_some_iff,
    Register.IsName]

namespace Window

/-- A window opens at every token of a stream. -/
theorem ofCursor_eq_ok_iff {stream : List Token} {cursor : Nat} {w : Window} :
    ofCursor stream cursor = .ok w ↔
      stream[cursor]? = some w.mnemonic ∧ stream.drop (cursor + 1) = w.following := by
  have hhead : stream[cursor]? = (stream.drop cursor).head? := List.head?_drop.symm
  have htail : stream.drop (cursor + 1) = (stream.drop cursor).tail := List.tail_drop.symm
  rw [ofCursor, hhead, htail]
  obtain ⟨mnemonic, following⟩ := w
  cases stream.drop cursor <;> simp

def text? (w : Window) (n : Nat) : Option String := w.following[n]?.map Token.text

/-- Whether the given texts stand from the `n`th token after the mnemonic on. -/
def Follows (w : Window) (n : Nat) (texts : List String) : Prop :=
  texts <+: (w.following.map Token.text).drop n

/-- Whether the window begins with the given texts. -/
def Spells (w : Window) (texts : List String) : Prop :=
  texts <+: w.mnemonic.text :: w.following.map Token.text

@[simp]
theorem follows_nil (w : Window) (n : Nat) : w.Follows n [] := List.nil_prefix

@[simp]
theorem follows_cons_iff {w : Window} {n : Nat} {s : String} {rest : List String} :
    w.Follows n (s :: rest) ↔ w.text? n = some s ∧ w.Follows (n + 1) rest := by
  simp only [Follows, text?, ← List.getElem?_map]
  generalize w.following.map Token.text = texts
  rw [← List.drop_drop]
  cases htexts : texts.drop n with
  | nil =>
      have hnone : texts[n]? = none := by simpa using htexts
      simp [hnone]
  | cons first tail =>
      have hfirst : texts[n]? = some first := by rw [← List.head?_drop, htexts]; rfl
      simp [hfirst, List.cons_prefix_cons, eq_comm]

theorem follows_append_iff {w : Window} {texts rest : List String} {n : Nat} :
    w.Follows n (texts ++ rest) ↔ w.Follows n texts ∧ w.Follows (n + texts.length) rest := by
  induction texts generalizing n with
  | nil => simp
  | cons s texts ih =>
      simp only [List.cons_append, follows_cons_iff, ih, List.length_cons, and_assoc]
      rw [Nat.add_right_comm, Nat.add_assoc]

theorem spells_cons_iff {w : Window} {s : String} {rest : List String} :
    w.Spells (s :: rest) ↔ w.mnemonic.text = s ∧ w.Follows 0 rest := by
  simp [Spells, Follows, List.cons_prefix_cons, eq_comm]

theorem operand_eq_ok_iff {w : Window} {n : Nat} {t : Token} :
    w.operand n = .ok t ↔ w.following[n]? = some t := by
  unfold operand
  split <;> simp_all

theorem text?_eq_some_iff {w : Window} {n : Nat} {s : String} :
    w.text? n = some s ↔ ∃ t, w.operand n = .ok t ∧ t.text = s := by
  simp only [text?, Option.map_eq_some_iff, operand_eq_ok_iff]

theorem expect_eq_ok_iff {w : Window} {n : Nat} {mark : String} {u : Unit} :
    w.expect n mark = .ok u ↔ w.text? n = some mark := by
  rw [expect, bind_eq_ok_iff, text?_eq_some_iff]
  refine exists_congr fun t => and_congr_right fun _ => ?_
  by_cases h : t.text = mark <;> simp [h]

theorem expect_of_text? {w : Window} {n : Nat} {mark : String} (h : w.text? n = some mark) :
    w.expect n mark = .ok () :=
  expect_eq_ok_iff.mpr h

theorem register_eq_ok_iff {w : Window} {n : Nat} {r : Register} :
    w.register n = .ok r ↔ r ≠ .eip ∧ w.text? n = some r.name := by
  rw [register, bind_eq_ok_iff, text?_eq_some_iff]
  constructor
  · intro ⟨t, ht, h⟩
    split at h
    · next r' hname =>
      cases h
      obtain ⟨hne, hname⟩ := Register.ofName?_eq_some_iff.mp hname
      exact ⟨hne, t, ht, hname.symm⟩
    · cases h
  · intro ⟨hne, t, ht, hname⟩
    exact ⟨t, ht, by simp [Register.ofName?_eq_some_iff.mpr ⟨hne, hname.symm⟩]⟩

theorem value_eq_ok_iff {w : Window} {n : Nat} {v : Word} :
    w.value n = .ok v ↔
      ∃ s, w.text? n = some s ∧ Word.IsNumeral s ∧ Word.ofNumeral s = v := by
  simp only [value, bind_eq_ok_iff, text?_eq_some_iff]
  constructor
  · intro ⟨t, ht, h⟩
    split at h
    · next v' htext =>
      cases h
      exact ⟨t.text, ⟨t, ht, rfl⟩, Word.ofText?_eq_some_iff.mp htext⟩
    · cases h
  · rintro ⟨s, ⟨t, ht, rfl⟩, hs⟩
    exact ⟨t, ht, by simp [Word.ofText?_eq_some_iff.mpr hs]⟩

theorem cell_eq_ok_iff {w : Window} {n : Nat} {base : Register} {offset : Word} :
    w.cell n = .ok (base, offset) ↔
      base ≠ .eip ∧ ∃ s, w.Follows n (Instruction.cellTokens base s) ∧ Word.IsNumeral s ∧
        Word.ofNumeral s = offset := by
  simp only [cell, bind_eq_ok_iff, expect_eq_ok_iff, register_eq_ok_iff, value_eq_ok_iff,
    pure_eq_ok_iff, Instruction.cellTokens, follows_cons_iff, follows_nil, Prod.mk.injEq]
  constructor
  · rintro ⟨_, hopen, _, ⟨hne, hbase⟩, _, hplus, _, ⟨s, hs, hnum, rfl⟩, _, hclose, rfl, rfl⟩
    exact ⟨hne, s, ⟨hopen, hbase, hplus, hs, hclose, trivial⟩, hnum, rfl⟩
  · rintro ⟨hne, s, ⟨hopen, hbase, hplus, hs, hclose, -⟩, hnum, rfl⟩
    exact ⟨(), hopen, base, ⟨hne, hbase⟩, (), hplus, _, ⟨s, hs, hnum, rfl⟩, (), hclose,
      rfl, rfl⟩

end Window

namespace Opcode

/-- What the look-ahead must find for an opcode. -/
def Suits (w : Window) : Opcode → Prop
  | storeRegister => w.text? 0 = some "[" ∧ ∃ s, w.text? 6 = some s ∧ Register.IsName s
  | storeValue => w.text? 0 = some "[" ∧ ∃ s, w.text? 6 = some s ∧ ¬ Register.IsName s
  | load => (∃ s, w.text? 0 = some s ∧ Register.IsName s) ∧ w.text? 2 = some "["
  | copy =>
      (∃ s, w.text? 0 = some s ∧ Register.IsName s) ∧
        ∃ s, w.text? 2 = some s ∧ Register.IsName s
  | set =>
      (∃ s, w.text? 0 = some s ∧ Register.IsName s) ∧
        ∃ s, w.text? 2 = some s ∧ ¬ Register.IsName s ∧ s ≠ "["
  | je | jmp | cmp | add | sub | inc | exit => True

theorem not_isName_bracket : ¬ Register.IsName "[" := not_isName_of_mem_marks (by decide)

theorem ofMove_of_bracket {w : Window} {source : Token} (hopen : w.text? 0 = some "[")
    (hsource : w.operand 6 = .ok source) :
    ofMove w = .ok (if source.isRegister then storeRegister else storeValue) := by
  obtain ⟨destination, hdestination, htext⟩ := Window.text?_eq_some_iff.mp hopen
  rw [ofMove, hdestination, ok_bind, if_pos htext, hsource, ok_bind]
  rfl

theorem ofMove_of_register {w : Window} {source : Token}
    (hregister : ∃ s, w.text? 0 = some s ∧ Register.IsName s)
    (hsource : w.operand 2 = .ok source) :
    ofMove w =
      .ok (if source.isRegister then copy else if source.text = "[" then load else set) := by
  obtain ⟨s, hregister, hname⟩ := hregister
  obtain ⟨destination, hdestination, rfl⟩ := Window.text?_eq_some_iff.mp hregister
  have hopen : destination.text ≠ "[" := fun h => not_isName_bracket (h ▸ hname)
  rw [ofMove, hdestination, ok_bind, if_neg hopen, if_pos (Token.isRegister_iff.mpr hname),
    hsource, ok_bind]
  rfl

/-- The look-ahead has seen what the opcode of a `mov` needs. -/
theorem suits_of_ofMove {w : Window} {op : Opcode} (h : ofMove w = .ok op) :
    op.mnemonic = "mov" ∧ op.Suits w := by
  obtain ⟨destination, hdestination, h⟩ := bind_eq_ok_iff.mp h
  have hfirst := Window.text?_eq_some_iff.mpr ⟨destination, hdestination, rfl⟩
  split at h
  · next hopen =>
    obtain ⟨source, hsource, h⟩ := bind_eq_ok_iff.mp h
    have hlast := Window.text?_eq_some_iff.mpr ⟨source, hsource, rfl⟩
    rw [hopen] at hfirst
    cases pure_eq_ok_iff.mp h
    by_cases hreg : source.isRegister = true
    · rw [if_pos hreg]
      exact ⟨rfl, hfirst, source.text, hlast, Token.isRegister_iff.mp hreg⟩
    · rw [if_neg hreg]
      exact ⟨rfl, hfirst, source.text, hlast, mt Token.isRegister_iff.mpr hreg⟩
  · split at h
    · next hname =>
      obtain ⟨source, hsource, h⟩ := bind_eq_ok_iff.mp h
      have hlast := Window.text?_eq_some_iff.mpr ⟨source, hsource, rfl⟩
      have hname : ∃ s, w.text? 0 = some s ∧ Register.IsName s :=
        ⟨destination.text, hfirst, Token.isRegister_iff.mp hname⟩
      cases pure_eq_ok_iff.mp h
      by_cases hreg : source.isRegister = true
      · rw [if_pos hreg]
        exact ⟨rfl, hname, source.text, hlast, Token.isRegister_iff.mp hreg⟩
      · rw [if_neg hreg]
        by_cases hopen : source.text = "["
        · rw [if_pos hopen]
          exact ⟨rfl, hname, hopen ▸ hlast⟩
        · rw [if_neg hopen]
          exact ⟨rfl, hname, source.text, hlast, mt Token.isRegister_iff.mpr hreg, hopen⟩
    · cases h

theorem ofMove_of_suits {w : Window} {op : Opcode} (hmov : op.mnemonic = "mov")
    (h : op.Suits w) : ofMove w = .ok op := by
  cases op with
  | storeRegister | storeValue =>
      obtain ⟨hopen, s, hlast, hname⟩ := h
      obtain ⟨source, hsource, rfl⟩ := Window.text?_eq_some_iff.mp hlast
      rw [ofMove_of_bracket hopen hsource]
      simp [Token.isRegister_iff, hname]
  | load =>
      obtain ⟨hregister, hlast⟩ := h
      obtain ⟨source, hsource, htext⟩ := Window.text?_eq_some_iff.mp hlast
      rw [ofMove_of_register hregister hsource]
      simp [Token.isRegister_iff, htext, not_isName_bracket]
  | copy | set =>
      obtain ⟨hregister, s, hlast, hname⟩ := h
      obtain ⟨source, hsource, rfl⟩ := Window.text?_eq_some_iff.mp hlast
      rw [ofMove_of_register hregister hsource]
      simp [Token.isRegister_iff, hname]
  | je | jmp | cmp | add | sub | inc | exit => exact absurd hmov (by decide)

/-- A window holds an opcode if it has its mnemonic and the look-ahead agrees. -/
theorem ofWindow_eq_ok_iff {w : Window} {op : Opcode} :
    ofWindow w = .ok op ↔ w.mnemonic.text = op.mnemonic ∧ op.Suits w := by
  unfold ofWindow
  split
  case h_8 hmov =>
    rw [hmov]
    exact ⟨fun h => (suits_of_ofMove h).imp_left Eq.symm,
      fun h => ofMove_of_suits h.1.symm h.2⟩
  case h_9 =>
    constructor
    · intro h
      cases h
    · intro ⟨hmnemonic, _⟩
      cases op <;> simp_all [mnemonic]
  all_goals
    next hmnemonic =>
    rw [hmnemonic]
    cases op <;> simp [mnemonic, Suits]

theorem ofCursor_eq_ok_iff {stream : List Token} {cursor : Nat} {op : Opcode} :
    ofCursor stream cursor = .ok op ↔
      ∃ t, stream[cursor]? = some t ∧ ofWindow ⟨t, stream.drop (cursor + 1)⟩ = .ok op := by
  rw [ofCursor, bind_eq_ok_iff]
  constructor
  · rintro ⟨⟨t, following⟩, hw, hop⟩
    obtain ⟨ht, rfl⟩ := Window.ofCursor_eq_ok_iff.mp hw
    exact ⟨t, ht, hop⟩
  · rintro ⟨t, ht, hop⟩
    exact ⟨_, Window.ofCursor_eq_ok_iff.mpr ⟨ht, rfl⟩, hop⟩

/-- Behind the operands of an instruction stands the next item. -/
theorem drop_operands (op : Opcode) (stream : List Token) (cursor : Nat) :
    (stream.drop (cursor + 1)).drop (op.tokenCount - 1) = stream.drop (cursor + op.tokenCount) := by
  have hpos := op.tokenCount_pos
  rw [List.drop_drop]
  congr 1
  omega

end Opcode

/-! ## Reading an instruction -/

namespace Instruction

/-- The source form of an instruction fixes its opcode, as long as no value slot holds
a register name or an opening bracket. -/
theorem opcode_of_spells {w : Window} {src : Instruction String} (hnamed : src.Named)
    (hvalues : ∀ s ∈ src.values, ¬ Register.IsName s ∧ s ≠ "[")
    (hw : w.Spells (src.tokens id)) : Opcode.ofWindow w = .ok src.opcode := by
  obtain ⟨hmnemonic, hw⟩ := Window.spells_cons_iff.mp hw
  apply Opcode.ofWindow_eq_ok_iff.mpr
  constructor
  · exact hmnemonic
  have hname : ∀ r ∈ src.registers, Register.IsName r.name := fun r hr =>
    ⟨r, hnamed r hr, rfl⟩
  cases src <;>
    simp only [operandTokens, cellTokens, List.cons_append, List.nil_append,
      Window.follows_cons_iff, id_eq] at hw <;>
    simp_all [opcode, Opcode.Suits, registers, values]

theorem opcode_of_numerals {w : Window} {src : Instruction String} (hnamed : src.Named)
    (hvalues : ∀ s ∈ src.values, Word.IsNumeral s) (hw : w.Spells (src.tokens id)) :
    Opcode.ofWindow w = .ok src.opcode := by
  apply opcode_of_spells hnamed _ hw
  intro s hs
  have hnot : s ≠ "[" := by
    intro heq
    exact not_isNumeral_mark (s := "[") (by decide) (heq ▸ hvalues s hs)
  exact ⟨not_isName_of_isNumeral (hvalues s hs), hnot⟩

theorem ofWindow_of_spells {w : Window} {src : Instruction String} (hnamed : src.Named)
    (hvalues : ∀ s ∈ src.values, Word.IsNumeral s) (hw : w.Spells (src.tokens id)) :
    ofWindow w = .ok (src.map Word.ofNumeral) := by
  have hop := opcode_of_numerals hnamed hvalues hw
  obtain ⟨-, hw⟩ := Window.spells_cons_iff.mp hw
  apply bind_eq_ok_iff.mpr
  refine ⟨src.opcode, hop, ?_⟩
  cases src with
  | je s | jmp s =>
      have hs := hvalues s (by simp [values])
      simp only [operandTokens, Window.follows_cons_iff, id_eq] at hw
      have hvalue := Window.value_eq_ok_iff.mpr ⟨s, hw.1, hs, rfl⟩
      simp only [opcode, hvalue, ok_bind]
      rfl
  | cmp r s | sub r s | set r s =>
      have hr := hnamed r (by simp [registers])
      have hs := hvalues s (by simp [values])
      simp only [operandTokens, Window.follows_cons_iff, id_eq] at hw
      obtain ⟨htarget, hcomma, hvalue, -⟩ := hw
      have hcomma := Window.expect_of_text? hcomma
      have htarget := Window.register_eq_ok_iff.mpr ⟨hr, htarget⟩
      have hvalue := Window.value_eq_ok_iff.mpr ⟨s, hvalue, hs, rfl⟩
      simp only [opcode, hcomma, htarget, hvalue, ok_bind]
      rfl
  | add r base s | load r base s =>
      have hr := hnamed r (by simp [registers])
      have hbase := hnamed base (by simp [registers])
      have hs := hvalues s (by simp [values])
      simp only [operandTokens, Window.follows_cons_iff, id_eq] at hw
      obtain ⟨htarget, hcomma, hcell⟩ := hw
      have htarget := Window.register_eq_ok_iff.mpr ⟨hr, htarget⟩
      have hcomma := Window.expect_of_text? hcomma
      have hcell := Window.cell_eq_ok_iff.mpr ⟨hbase, s, hcell, hs, rfl⟩
      simp only [opcode, htarget, hcomma, hcell, ok_bind]
      rfl
  | storeRegister base s r =>
      have hbase := hnamed base (by simp [registers])
      have hr := hnamed r (by simp [registers])
      have hs := hvalues s (by simp [values])
      simp only [operandTokens, Window.follows_append_iff, Window.follows_cons_iff, id_eq] at hw
      obtain ⟨hcell, hcomma, hsource, -⟩ := hw
      have hcell := Window.cell_eq_ok_iff.mpr ⟨hbase, s, hcell, hs, rfl⟩
      have hcomma := Window.expect_of_text? hcomma
      have hsource := Window.register_eq_ok_iff.mpr ⟨hr, hsource⟩
      simp only [opcode, hcell, ok_bind]
      simp only [cellTokens, List.length_cons, List.length_nil, Nat.zero_add] at hcomma hsource
      simp only [hcomma, hsource, ok_bind]
      rfl
  | storeValue base s t =>
      have hbase := hnamed base (by simp [registers])
      have hs := hvalues s (by simp [values])
      have ht := hvalues t (by simp [values])
      simp only [operandTokens, Window.follows_append_iff, Window.follows_cons_iff, id_eq] at hw
      obtain ⟨hcell, hcomma, hvalue, -⟩ := hw
      have hcell := Window.cell_eq_ok_iff.mpr ⟨hbase, s, hcell, hs, rfl⟩
      have hcomma := Window.expect_of_text? hcomma
      have hvalue := Window.value_eq_ok_iff.mpr ⟨t, hvalue, ht, rfl⟩
      simp only [opcode, hcell, ok_bind]
      simp only [cellTokens, List.length_cons, List.length_nil, Nat.zero_add] at hcomma hvalue
      simp only [hcomma, hvalue, ok_bind]
      rfl
  | copy r source =>
      have hr := hnamed r (by simp [registers])
      have hsource := hnamed source (by simp [registers])
      simp only [operandTokens, Window.follows_cons_iff] at hw
      obtain ⟨htarget, hcomma, hname, -⟩ := hw
      have hcomma := Window.expect_of_text? hcomma
      have htarget := Window.register_eq_ok_iff.mpr ⟨hr, htarget⟩
      have hname := Window.register_eq_ok_iff.mpr ⟨hsource, hname⟩
      simp only [opcode, hcomma, htarget, hname, ok_bind]
      rfl
  | inc r =>
      have hr := hnamed r (by simp [registers])
      simp only [operandTokens, Window.follows_cons_iff] at hw
      have htarget := Window.register_eq_ok_iff.mpr ⟨hr, hw.1⟩
      simp only [opcode, htarget, ok_bind]
      rfl
  | exit => rfl

/-- An instruction is read only from its own tokens, up to leading zeros in its numerals. -/
theorem exists_of_ofWindow {w : Window} {ins : Instruction Word} (h : ofWindow w = .ok ins) :
    ∃ src : Instruction String, src.Named ∧ (∀ s ∈ src.values, Word.IsNumeral s) ∧
      w.Spells (src.tokens id) ∧ src.map Word.ofNumeral = ins := by
  obtain ⟨op, hop, h⟩ := bind_eq_ok_iff.mp h
  obtain ⟨hmnemonic, -⟩ := Opcode.ofWindow_eq_ok_iff.mp hop
  suffices hsrc : ∃ src : Instruction String, src.opcode = op ∧ src.Named ∧
      (∀ s ∈ src.values, Word.IsNumeral s) ∧ w.Follows 0 (src.operandTokens id) ∧
      src.map Word.ofNumeral = ins by
    obtain ⟨src, rfl, hnamed, hvalues, hfollows, hmap⟩ := hsrc
    exact ⟨src, hnamed, hvalues, Window.spells_cons_iff.mpr ⟨hmnemonic, hfollows⟩, hmap⟩
  cases op <;>
    simp only [bind_eq_ok_iff, pure_eq_ok_iff, Window.expect_eq_ok_iff,
      Window.register_eq_ok_iff, Window.value_eq_ok_iff, Window.cell_eq_ok_iff, Prod.exists,
      exists_const] at h
  case je =>
    obtain ⟨_, ⟨s, hvalue, hs, rfl⟩, rfl⟩ := h
    exact ⟨je s, rfl, by simp [Named, registers], by simp [values, hs],
      by simp [operandTokens, hvalue], rfl⟩
  case jmp =>
    obtain ⟨_, ⟨s, hvalue, hs, rfl⟩, rfl⟩ := h
    exact ⟨jmp s, rfl, by simp [Named, registers], by simp [values, hs],
      by simp [operandTokens, hvalue], rfl⟩
  case cmp =>
    obtain ⟨hcomma, r, ⟨hr, htarget⟩, _, ⟨s, hvalue, hs, rfl⟩, rfl⟩ := h
    exact ⟨cmp r s, rfl, by simp [Named, registers, hr], by simp [values, hs],
      by simp [operandTokens, hcomma, htarget, hvalue], rfl⟩
  case sub =>
    obtain ⟨hcomma, r, ⟨hr, htarget⟩, _, ⟨s, hvalue, hs, rfl⟩, rfl⟩ := h
    exact ⟨sub r s, rfl, by simp [Named, registers, hr], by simp [values, hs],
      by simp [operandTokens, hcomma, htarget, hvalue], rfl⟩
  case set =>
    obtain ⟨hcomma, r, ⟨hr, htarget⟩, _, ⟨s, hvalue, hs, rfl⟩, rfl⟩ := h
    exact ⟨set r s, rfl, by simp [Named, registers, hr], by simp [values, hs],
      by simp [operandTokens, hcomma, htarget, hvalue], rfl⟩
  case add =>
    obtain ⟨r, ⟨hr, htarget⟩, hcomma, base, _, ⟨hbase, s, hcell, hs, rfl⟩, rfl⟩ := h
    exact ⟨add r base s, rfl, by simp [Named, registers, hr, hbase], by simp [values, hs],
      by simpa [operandTokens, hcomma, htarget] using hcell, rfl⟩
  case load =>
    obtain ⟨r, ⟨hr, htarget⟩, hcomma, base, _, ⟨hbase, s, hcell, hs, rfl⟩, rfl⟩ := h
    exact ⟨load r base s, rfl, by simp [Named, registers, hr, hbase], by simp [values, hs],
      by simpa [operandTokens, hcomma, htarget] using hcell, rfl⟩
  case storeRegister =>
    obtain ⟨base, _, ⟨hbase, s, hcell, hs, rfl⟩, hcomma, r, ⟨hr, hsource⟩, rfl⟩ := h
    exact ⟨storeRegister base s r, rfl, by simp [Named, registers, hr, hbase],
      by simp [values, hs],
      Window.follows_append_iff.mpr ⟨hcell, by simp [cellTokens, hcomma, hsource]⟩, rfl⟩
  case storeValue =>
    obtain ⟨base, _, ⟨hbase, s, hcell, hs, rfl⟩, hcomma, _, ⟨t, hvalue, ht, rfl⟩, rfl⟩ := h
    exact ⟨storeValue base s t, rfl, by simp [Named, registers, hbase],
      by simp [values, hs, ht],
      Window.follows_append_iff.mpr ⟨hcell, by simp [cellTokens, hcomma, hvalue]⟩, rfl⟩
  case copy =>
    obtain ⟨hcomma, r, ⟨hr, htarget⟩, source, ⟨hsource, hname⟩, rfl⟩ := h
    exact ⟨copy r source, rfl, by simp [Named, registers, hr, hsource], by simp [values],
      by simp [operandTokens, hcomma, htarget, hname], rfl⟩
  case inc =>
    obtain ⟨r, ⟨hr, htarget⟩, rfl⟩ := h
    exact ⟨inc r, rfl, by simp [Named, registers, hr], by simp [values],
      by simp [operandTokens, htarget], rfl⟩
  case exit =>
    cases h
    exact ⟨exit, rfl, by simp [Named, registers], by simp [values], by simp [operandTokens],
      rfl⟩

/-- Reading succeeds on exactly the source forms of instructions. -/
theorem ofWindow_eq_ok_iff {w : Window} {ins : Instruction Word} :
    ofWindow w = .ok ins ↔
      ∃ src : Instruction String, src.Named ∧ (∀ s ∈ src.values, Word.IsNumeral s) ∧
        w.Spells (src.tokens id) ∧ src.map Word.ofNumeral = ins := by
  constructor
  · exact exists_of_ofWindow
  · rintro ⟨src, hnamed, hvalues, hw, rfl⟩
    exact ofWindow_of_spells hnamed hvalues hw

/-- What is read has the opcode that was found first. -/
theorem opcode_of_ofWindow {w : Window} {ins : Instruction Word} (h : ofWindow w = .ok ins) :
    Opcode.ofWindow w = .ok ins.opcode := by
  obtain ⟨src, hnamed, hvalues, hw, rfl⟩ := ofWindow_eq_ok_iff.mp h
  rw [opcode_map]
  exact opcode_of_numerals hnamed hvalues hw

end Instruction

end WordMachine
