import Mathlib
import WordMachine.Proofs.Grammar
import WordMachine.Proofs.Lookahead

/-!
# Routes through a stream

The label pass and the reader both go through a stream from instruction to instruction, and the
opcode says where the next one is.  Since an instruction keeps its opcode when it is resolved,
the reader comes to the instructions that the label pass has come to, at shifted positions, and
counts the same words for each of them.
-/

namespace WordMachine

/-- The label pass takes what stands at a position for an instruction with this opcode. -/
def SymbolTable.ScansAs (stream : List Token) (cursor : Nat) (op : Opcode) : Prop :=
  ∀ (table : SymbolTable) (address : Word),
    table.scan address (stream.drop cursor) =
      table.scan (address + UInt64.ofNat op.wordCount) (stream.drop (cursor + op.tokenCount))

/-- The reader takes what stands at a position for an instruction with this opcode. -/
def Instruction.ReadsAs (stream : List Token) (cursor : Nat) (op : Opcode) : Prop :=
  ∀ capacity used : Nat,
    listOfTokens capacity used (stream.drop cursor) = do
      let ins ← ofCursor stream cursor
      if capacity < used + op.wordCount then
        throw (.outOfMemory (used + op.wordCount) capacity)
      return ins :: (← listOfTokens capacity (used + op.wordCount)
        (stream.drop (cursor + op.tokenCount)))

/-- A position at which an instruction is found, and its opcode. -/
structure Station where
  cursor : Nat
  opcode : Opcode
  deriving DecidableEq, Repr

namespace Station

def wordCount (s : Station) : Nat := s.opcode.wordCount

/-- The same instruction where the declarations in front of it have been dropped. -/
def shifted (stream : List Token) (s : Station) : Station :=
  { s with cursor := SymbolTable.shifted stream s.cursor }

/-- The instruction has no declaration among its operands. -/
def Undeclared (stream : List Token) (s : Station) : Prop :=
  SymbolTable.Undeclared stream s.cursor s.opcode.tokenCount

/-- What is read at the position is an instruction with the opcode. -/
def Holds (stream : List Token) (s : Station) (ins : Instruction Word) : Prop :=
  Instruction.ofCursor stream s.cursor = .ok ins ∧ ins.opcode = s.opcode

end Station

/-- From a position on, a stream consists of declarations and of instructions at these
stations. -/
inductive Route (stream : List Token) : Nat → List Station → Prop
  | done : Route stream stream.length []
  | declaration {cursor : Nat} {t : Token} {stations : List Station}
      (ht : stream[cursor]? = some t) (hrole : t.role = .declaration)
      (hrest : Route stream (cursor + 1) stations) : Route stream cursor stations
  | instruction {cursor : Nat} {op : Opcode} {stations : List Station}
      (hop : Opcode.ofCursor stream cursor = .ok op)
      (hinside : cursor + op.tokenCount ≤ stream.length)
      (hrest : Route stream (cursor + op.tokenCount) stations) :
      Route stream cursor (⟨cursor, op⟩ :: stations)

namespace Opcode

variable {op : Opcode} {stream : List Token} {cursor : Nat}

/-- The tokens at the position of an instruction. -/
theorem exists_drop_of_ofCursor (hop : ofCursor stream cursor = .ok op) :
    ∃ t, stream.drop cursor = t :: stream.drop (cursor + 1) ∧ stream[cursor]? = some t ∧
      ofWindow ⟨t, stream.drop (cursor + 1)⟩ = .ok op := by
  obtain ⟨t, ht, hop⟩ := ofCursor_eq_ok_iff.mp hop
  obtain ⟨hcursor, rfl⟩ := List.getElem?_eq_some_iff.mp ht
  exact ⟨_, List.drop_eq_getElem_cons hcursor, ht, hop⟩

theorem scansAs_of_ofCursor (hop : ofCursor stream cursor = .ok op)
    (hinside : cursor + op.tokenCount ≤ stream.length) :
    SymbolTable.ScansAs stream cursor op := by
  intro table address
  obtain ⟨t, hdrop, -, hwindow⟩ := exists_drop_of_ofCursor hop
  have hlength : op.tokenCount ≤ (stream.drop (cursor + 1)).length + 1 := by
    rw [List.length_drop]
    omega
  rw [hdrop, SymbolTable.scan_of_ofWindow hwindow hlength, op.drop_operands]

theorem readsAs_of_ofCursor (hop : ofCursor stream cursor = .ok op) :
    Instruction.ReadsAs stream cursor op := by
  intro capacity used
  obtain ⟨t, hdrop, ht, hwindow⟩ := exists_drop_of_ofCursor hop
  have hcursor : Window.ofCursor stream cursor = .ok ⟨t, stream.drop (cursor + 1)⟩ :=
    Window.ofCursor_eq_ok_iff.mpr ⟨ht, rfl⟩
  rw [hdrop, Instruction.ofCursor, hcursor, ok_bind]
  cases hread : Instruction.ofWindow ⟨t, stream.drop (cursor + 1)⟩ with
  | error cause => exact Instruction.listOfTokens_cons_of_error hread
  | ok ins =>
      have hins := Instruction.opcode_of_ofWindow hread
      obtain rfl : op = ins.opcode := Except.ok.inj (hwindow.symm.trans hins)
      rw [Instruction.listOfTokens, hread, ok_bind, ok_bind, ins.opcode.drop_operands]

end Opcode

namespace Instruction

variable {op : Opcode} {stream : List Token} {cursor capacity used : Nat}

theorem opcode_of_ofCursor {ins : Instruction Word} (h : ofCursor stream cursor = .ok ins) :
    Opcode.ofCursor stream cursor = .ok ins.opcode := by
  obtain ⟨w, hw, hins⟩ := bind_eq_ok_iff.mp h
  exact bind_eq_ok_iff.mpr ⟨w, hw, opcode_of_ofWindow hins⟩

/-- Where the reader succeeds, it reads an instruction and goes on behind it. -/
theorem ReadsAs.exists_of_ok {code : List (Instruction Word)} (h : ReadsAs stream cursor op)
    (hread : listOfTokens capacity used (stream.drop cursor) = .ok code) :
    ∃ ins code', ofCursor stream cursor = .ok ins ∧ code = ins :: code' ∧
      listOfTokens capacity (used + op.wordCount) (stream.drop (cursor + op.tokenCount)) =
        .ok code' := by
  rw [h, bind_eq_ok_iff] at hread
  obtain ⟨ins, hins, hread⟩ := hread
  split_ifs at hread
  · cases hread
  · obtain ⟨code', hcode', hread⟩ := bind_eq_ok_iff.mp hread
    exact ⟨ins, code', hins, (pure_eq_ok_iff.mp hread).symm, hcode'⟩

end Instruction

namespace Route

variable {table : SymbolTable} {stream resolved : List Token} {cursor : Nat}
variable {stations : List Station}

/-- The label pass follows a route and counts the words of its instructions. -/
theorem exists_of_scan {address : Word} {result : SymbolTable × Word}
    (hcursor : cursor ≤ stream.length)
    (h : table.scan address (stream.drop cursor) = .ok result) :
    ∃ stations, Route stream cursor stations ∧
      result.2 = address + UInt64.ofNat (stations.map Station.wordCount).sum := by
  induction hleft : stream.length - cursor using Nat.strong_induction_on
    generalizing table address cursor with
  | h left ih =>
      subst hleft
      obtain hlt | rfl := hcursor.lt_or_eq
      · have hget := List.getElem?_eq_getElem hlt
        have hdrop := List.drop_eq_getElem_cons hlt
        by_cases hrole : stream[cursor].role = .declaration
        · rw [hdrop] at h
          obtain ⟨_, _, -, hrest⟩ := SymbolTable.exists_of_scan_declaration hrole h
          obtain ⟨stations, hroute, hlast⟩ := ih _ (by omega) (by omega) hrest rfl
          exact ⟨stations, .declaration hget hrole hroute, hlast⟩
        · have hinstruction := h
          rw [hdrop] at hinstruction
          obtain ⟨op, hwindow, hlength, -⟩ :=
            SymbolTable.exists_of_scan_instruction hrole hinstruction
          rw [List.length_drop] at hlength
          have hpos := op.tokenCount_pos
          have hinside : cursor + op.tokenCount ≤ stream.length := by omega
          have hop : Opcode.ofCursor stream cursor = .ok op :=
            Opcode.ofCursor_eq_ok_iff.mpr ⟨_, hget, hwindow⟩
          rw [Opcode.scansAs_of_ofCursor hop hinside] at h
          obtain ⟨stations, hroute, hlast⟩ := ih _ (by omega) hinside h rfl
          refine ⟨⟨cursor, op⟩ :: stations, .instruction hop hinside hroute, ?_⟩
          rw [hlast, List.map_cons, List.sum_cons, UInt64.ofNat_add, UInt64.add_assoc]
          rfl
      · rw [List.drop_length, SymbolTable.scan] at h
        cases h
        exact ⟨[], .done, by simp⟩

/-- Resolving shifts a route, if no instruction on it loses a declaration. -/
theorem resolve (hroute : Route stream cursor stations)
    (hresolve : table.resolve stream = .ok resolved)
    (hclear : ∀ s ∈ stations, s.Undeclared stream) :
    Route resolved (SymbolTable.shifted stream cursor) (stations.map (Station.shifted stream)) := by
  induction hroute with
  | done =>
      rw [SymbolTable.shifted_length hresolve]
      exact .done
  | declaration ht hrole _ ih =>
      rw [← SymbolTable.shifted_succ ht hrole]
      exact ih hclear
  | instruction hop hinside _ ih =>
      obtain ⟨hfirst, hrest⟩ := List.forall_mem_cons.mp hclear
      have hnext := SymbolTable.shifted_add hinside hfirst
      have hlast := SymbolTable.shifted_le hresolve hinside
      rw [hnext] at hlast
      exact .instruction (SymbolTable.ofCursor_shifted hresolve hop hinside hfirst) hlast
        (hnext ▸ ih hrest)

/-- The reader goes along the shifted route. -/
theorem holds_of_listOfTokens {capacity used : Nat} {code : List (Instruction Word)}
    (hroute : Route stream cursor stations) (hresolve : table.resolve stream = .ok resolved)
    (hclear : ∀ s ∈ stations, s.Undeclared stream)
    (hread : Instruction.listOfTokens capacity used
      (resolved.drop (SymbolTable.shifted stream cursor)) = .ok code) :
    List.Forall₂ (Station.Holds resolved) (stations.map (Station.shifted stream)) code := by
  induction hroute generalizing used code with
  | done =>
      rw [SymbolTable.shifted_length hresolve, List.drop_length, Instruction.listOfTokens] at hread
      cases hread
      exact .nil
  | declaration ht hrole _ ih =>
      rw [← SymbolTable.shifted_succ ht hrole] at hread
      exact ih hclear hread
  | instruction hop hinside _ ih =>
      obtain ⟨hfirst, hrest⟩ := List.forall_mem_cons.mp hclear
      have hshifted := SymbolTable.ofCursor_shifted hresolve hop hinside hfirst
      obtain ⟨ins, code', hins, rfl, hcode'⟩ :=
        (Opcode.readsAs_of_ofCursor hshifted).exists_of_ok hread
      have hopcode := Except.ok.inj ((Instruction.opcode_of_ofCursor hins).symm.trans hshifted)
      rw [← SymbolTable.shifted_add hinside hfirst] at hcode'
      exact .cons ⟨hins, hopcode⟩ (ih hrest hcode')

/-- Where all passes accept a stream, no instruction has a declaration among its operands. -/
theorem undeclared_of_accepts (hroute : Route stream cursor stations)
    (h : table.Accepts (stream.drop cursor)) : ∀ s ∈ stations, s.Undeclared stream := by
  induction hroute with
  | done => simp
  | declaration ht hrole _ ih =>
      obtain ⟨hcursor, hget⟩ := List.getElem?_eq_some_iff.mp ht
      rw [List.drop_eq_getElem_cons hcursor, hget] at h
      exact ih (SymbolTable.exists_of_accepts_declaration hrole h).2
  | @instruction cursor op stations hop hinside _ ih =>
      obtain ⟨t, hdrop, -, hwindow⟩ := Opcode.exists_drop_of_ofCursor hop
      rw [hdrop] at h
      obtain ⟨ins, hins, htexts, hrest⟩ :=
        SymbolTable.exists_of_accepts_instruction (Opcode.role_ne_declaration hwindow) h
      have hspells : Window.Spells ⟨t, stream.drop (cursor + 1)⟩ (ins.tokens Operand.text) := by
        rw [Window.Spells, ← List.map_cons, htexts]
        exact List.prefix_append _ _
      obtain rfl : op = ins.opcode :=
        Except.ok.inj (hwindow.symm.trans (Item.opcode_of_spells hins hspells))
      rw [ins.opcode.drop_operands] at hrest
      refine List.forall_mem_cons.mpr ⟨?_, ih hrest⟩
      intro u hu
      have hwords : ((stream.drop cursor).take ins.tokenCount).map Token.text =
          ins.tokens Operand.text := by
        rw [List.map_take, hdrop, htexts, ← Instruction.length_tokens Operand.text ins,
          List.take_left]
      have htext : u.text ∈ ins.tokens Operand.text := hwords ▸ List.mem_map_of_mem hu
      exact Item.role_ne_declaration hins htext u.index

end Route

/-- The opcode at a position is found from the tokens of the instruction alone, in every stream
in which they stand, and it stays the same when the labels are resolved, to whatever addresses.
So the label pass and the reader skip the same tokens and count the same words for an
instruction.  If both succeed, the reader comes to all the instructions that the label pass has
come to and to no others. -/
theorem Opcode.ofCursor_ignores_labels (stream : List Token) :
    (∀ cursor op, ofCursor stream cursor = .ok op →
      (∀ stream' cursor',
        Instruction.textsAt stream cursor op.tokenCount <+:
            (stream'.drop cursor').map Token.text →
          ofCursor stream' cursor' = .ok op) ∧
      (cursor + op.tokenCount ≤ stream.length →
        SymbolTable.ScansAs stream cursor op ∧
          (SymbolTable.Undeclared stream cursor op.tokenCount →
            ∀ (table : SymbolTable) resolved, table.resolve stream = .ok resolved →
              ofCursor resolved (SymbolTable.shifted stream cursor) = .ok op ∧
                Instruction.ReadsAs resolved (SymbolTable.shifted stream cursor) op))) ∧
    ∀ labels last, SymbolTable.scan {} 0 stream = .ok (labels, last) →
      ∃ stations, Route stream 0 stations ∧
        last = UInt64.ofNat (stations.map Station.wordCount).sum ∧
        ∀ (table : SymbolTable) resolved, table.resolve stream = .ok resolved →
          ((∀ s ∈ stations, s.Undeclared stream) →
            Route resolved 0 (stations.map (Station.shifted stream))) ∧
          ∀ capacity code, Instruction.listOfTokens capacity 0 resolved = .ok code →
            Route resolved 0 (stations.map (Station.shifted stream)) ∧
              List.Forall₂ (Station.Holds resolved)
                (stations.map (Station.shifted stream)) code := by
  constructor
  · intro cursor op hop
    refine ⟨fun _ _ => ofCursor_of_textsAt_prefix hop, fun hinside => ?_⟩
    refine ⟨scansAs_of_ofCursor hop hinside, fun hclear table resolved hresolve => ?_⟩
    have hshifted := SymbolTable.ofCursor_shifted hresolve hop hinside hclear
    exact ⟨hshifted, readsAs_of_ofCursor hshifted⟩
  · intro labels last hscan
    obtain ⟨stations, hroute, hlast⟩ := Route.exists_of_scan (Nat.zero_le stream.length) hscan
    rw [UInt64.zero_add] at hlast
    refine ⟨stations, hroute, hlast, fun table resolved hresolve => ?_⟩
    have hmoved := hroute.resolve hresolve
    refine ⟨hmoved, fun capacity code hread => ?_⟩
    have haccepts : table.Accepts stream :=
      ⟨⟨{}, 0, _, hscan⟩,
        ⟨resolved, capacity, 0, code, SymbolTable.resolve_eq_ok_iff.mp hresolve, hread⟩⟩
    have hclear := hroute.undeclared_of_accepts haccepts
    exact ⟨hmoved hclear, hroute.holds_of_listOfTokens hresolve hclear hread⟩

/-- A source text with a label that has the name of a register. -/
def Source.shadowing : String := ":eax mov [ ebp + .eax ] , .eax :b jmp .b"

/-- Its tokens with the labels resolved to addresses that are not theirs. -/
def Source.shadowed : List Token :=
  [⟨"mov", 1⟩, ⟨"[", 2⟩, ⟨"ebp", 3⟩, ⟨"+", 4⟩, ⟨"18446744073709551615", 5⟩, ⟨"]", 6⟩, ⟨",", 7⟩,
    ⟨"18446744073709551615", 8⟩, ⟨"jmp", 10⟩, ⟨"3", 11⟩]

/-- A reference to a label with the name of a register is no register, and neither is its
numeral, however long it is. -/
theorem Opcode.ofCursor_ignores_labels_shadowing :
    SymbolTable.resolve ⟨[⟨"eax", 18446744073709551615, 0⟩, ⟨"b", 3, 9⟩]⟩
        (Source.tokens Source.shadowing) = .ok Source.shadowed ∧
      ofCursor (Source.tokens "exit mov [ ebp + .eax ] , .eax") 1 = .ok .storeValue ∧
      ofCursor Source.shadowed 0 = .ok .storeValue ∧
      ∃ stations, Route (Source.tokens Source.shadowing) 0 stations ∧
        List.Forall₂ (Station.Holds Source.shadowed)
          (stations.map (Station.shifted (Source.tokens Source.shadowing)))
          [.storeValue .ebp 18446744073709551615 18446744073709551615, .jmp 3] := by
  obtain ⟨hlocal, hpasses⟩ := ofCursor_ignores_labels (Source.tokens Source.shadowing)
  have hop : ofCursor (Source.tokens Source.shadowing) 1 = .ok .storeValue := by cbv
  have hscan : SymbolTable.scan {} 0 (Source.tokens Source.shadowing) =
      .ok (⟨[⟨"eax", 0, 0⟩, ⟨"b", 4, 9⟩]⟩, 6) := by cbv
  have hresolve : SymbolTable.resolve ⟨[⟨"eax", 18446744073709551615, 0⟩, ⟨"b", 3, 9⟩]⟩
      (Source.tokens Source.shadowing) = .ok Source.shadowed := by decide +kernel
  have hread : Instruction.listOfTokens 6 0 Source.shadowed =
      .ok [.storeValue .ebp 18446744073709551615 18446744073709551615, .jmp 3] := by
    decide +kernel
  obtain ⟨hagree, hkept⟩ := hlocal 1 .storeValue hop
  have hresolved := (hkept (by decide +kernel)).2 (by decide +kernel) _ _ hresolve
  obtain ⟨stations, hroute, -, hcode⟩ := hpasses _ _ hscan
  have hholds := ((hcode _ _ hresolve).2 _ _ hread).2
  exact ⟨hresolve, hagree _ 1 (by decide +kernel), hresolved.1, stations, hroute, hholds⟩

end WordMachine
