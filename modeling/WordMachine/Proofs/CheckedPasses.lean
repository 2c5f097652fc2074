import Mathlib
import WordMachine.Proofs.Checks
import WordMachine.Proofs.Passes

/-!
# Checked passes over a token stream

Here a stream is read by cursors: every token is fetched at an index, every index is a sum,
and an instruction that is cut off is reported by way of the token at its mnemonic.  The
passes on the stream itself do the same, so that each token is there, the addresses stay
below the cursors, and the words fit in memory when they are copied into it.
-/

namespace WordMachine

theorem Opcode.tokenCount_le (op : Opcode) : op.tokenCount ≤ 8 := by
  cases op <;> decide

namespace Checked

/-- The token `n` places behind a cursor. -/
def operand (stream : List Token) (cursor n : Nat) : Checked SourceError Token := do
  let mnemonic ← there stream[cursor]?
  check (cursor + n < Word.modulus)
  match stream[cursor + n]? with
  | some token => return token
  | none => throw (.unexpectedEnd mnemonic.index)

def expect (stream : List Token) (cursor n : Nat) (mark : String) : Checked SourceError Unit := do
  let token ← operand stream cursor n
  if token.text = mark then return () else throw (.malformed token)

def register (stream : List Token) (cursor n : Nat) : Checked SourceError Register := do
  let token ← operand stream cursor n
  match Register.ofName? token.text with
  | some r => return r
  | none => throw (.invalidRegister token)

def value (stream : List Token) (cursor n : Nat) : Checked SourceError Word := do
  let token ← operand stream cursor n
  match Word.ofText? token.text with
  | some v => return v
  | none => throw (.invalidNumber token)

def cell (stream : List Token) (cursor n : Nat) : Checked SourceError (Register × Word) := do
  expect stream cursor n "["
  let base ← register stream cursor (n + 1)
  expect stream cursor (n + 2) "+"
  let offset ← value stream cursor (n + 3)
  expect stream cursor (n + 4) "]"
  return (base, offset)

def move (stream : List Token) (cursor : Nat) : Checked SourceError Opcode := do
  let destination ← operand stream cursor 1
  if destination.text = "[" then
    let source ← operand stream cursor 7
    return if source.isRegister then .storeRegister else .storeValue
  else if destination.isRegister then
    let source ← operand stream cursor 3
    return if source.isRegister then .copy else if source.text = "[" then .load else .set
  else
    throw (.malformed destination)

/-- The opcode of the instruction at a cursor, which may be behind the last token. -/
def opcode (stream : List Token) (cursor : Nat) : Checked SourceError Opcode :=
  match stream[cursor]? with
  | none => throw (.unexpectedEnd ((stream.getLast?.map Token.index).getD 0))
  | some mnemonic =>
    match mnemonic.text with
    | "je" => return .je
    | "jmp" => return .jmp
    | "cmp" => return .cmp
    | "add" => return .add
    | "sub" => return .sub
    | "inc" => return .inc
    | "exit" => return .exit
    | "mov" => move stream cursor
    | _ => throw (.malformed mnemonic)

def instruction (stream : List Token) (cursor : Nat) :
    Checked SourceError (Instruction Word) := do
  let expect := expect stream cursor
  let register := register stream cursor
  let value := value stream cursor
  let cell := cell stream cursor
  match ← opcode stream cursor with
  | .je => return .je (← value 1)
  | .jmp => return .jmp (← value 1)
  | .cmp =>
      expect 2 ","
      return .cmp (← register 1) (← value 3)
  | .add =>
      let target ← register 1
      expect 2 ","
      let (base, offset) ← cell 3
      return .add target base offset
  | .sub =>
      expect 2 ","
      return .sub (← register 1) (← value 3)
  | .storeRegister =>
      let (base, offset) ← cell 1
      expect 6 ","
      return .storeRegister base offset (← register 7)
  | .storeValue =>
      let (base, offset) ← cell 1
      expect 6 ","
      return .storeValue base offset (← value 7)
  | .load =>
      let target ← register 1
      expect 2 ","
      let (base, offset) ← cell 3
      return .load target base offset
  | .copy =>
      expect 2 ","
      return .copy (← register 1) (← register 3)
  | .set =>
      expect 2 ","
      return .set (← register 1) (← value 3)
  | .inc => return .inc (← register 1)
  | .exit => return .exit

def words (stream : List Token) (cursor : Nat) : Checked SourceError (List Word) := do
  let ins ← instruction stream cursor
  return ins.encode

section

variable {stream : List Token} {cursor n : Nat} {w : Window}

/-- A window holds the tokens behind its cursor. -/
theorem getElem?_of_ofCursor (hw : Window.ofCursor stream cursor = .ok w) :
    stream[cursor]? = some w.mnemonic ∧
      ∀ n, stream[cursor + (n + 1)]? = w.following[n]? := by
  obtain ⟨hmnemonic, hfollowing⟩ := Window.ofCursor_eq_ok_iff.mp hw
  refine ⟨hmnemonic, fun n => ?_⟩
  rw [← hfollowing, List.getElem?_drop, Nat.add_right_comm, Nat.add_assoc]

/-- The token at a cursor and the window that it opens. -/
theorem exists_window (hcursor : cursor < stream.length) :
    ∃ t, stream[cursor]? = some t ∧ stream.drop cursor = t :: stream.drop (cursor + 1) ∧
      Window.ofCursor stream cursor = .ok ⟨t, stream.drop (cursor + 1)⟩ := by
  have hget := List.getElem?_eq_getElem hcursor
  exact ⟨_, hget, List.drop_eq_getElem_cons hcursor, Window.ofCursor_eq_ok_iff.mpr ⟨hget, rfl⟩⟩

variable (hlength : stream.length + 8 ≤ Word.modulus)
  (hw : Window.ofCursor stream cursor = .ok w)

include hlength hw

/-- The token at the mnemonic is there. -/
theorem operand_eq (hn : n < 7) : operand stream cursor (n + 1) = of (w.operand n) := by
  obtain ⟨hmnemonic, hfollowing⟩ := getElem?_of_ofCursor hw
  have hcursor : cursor < stream.length := (List.getElem?_eq_some_iff.mp hmnemonic).1
  have hfits : cursor + (n + 1) < Word.modulus := by omega
  rw [operand, hmnemonic, hfollowing, Window.operand]
  refine (check_bind hfits _).trans ?_
  cases w.following[n]? <;> rfl

theorem expect_eq (hn : n < 7) (mark : String) :
    expect stream cursor (n + 1) mark = of (w.expect n mark) := by
  apply bind_eq_of (operand_eq hlength hw hn)
  intro token _
  split <;> rfl

theorem register_eq (hn : n < 7) :
    register stream cursor (n + 1) = of (w.register n) := by
  apply bind_eq_of (operand_eq hlength hw hn)
  intro token _
  cases Register.ofName? token.text <;> rfl

theorem value_eq (hn : n < 7) : value stream cursor (n + 1) = of (w.value n) := by
  apply bind_eq_of (operand_eq hlength hw hn)
  intro token _
  cases Word.ofText? token.text <;> rfl

theorem cell_eq (hn : n < 3) : cell stream cursor (n + 1) = of (w.cell n) := by
  have hopen := expect_eq hlength hw (show n < 7 by omega) "["
  have hbase := register_eq hlength hw (show n + 1 < 7 by omega)
  have hplus := expect_eq hlength hw (show n + 2 < 7 by omega) "+"
  have hoffset := value_eq hlength hw (show n + 3 < 7 by omega)
  have hclose := expect_eq hlength hw (show n + 4 < 7 by omega) "]"
  rw [cell, Window.cell, hopen]
  simp only [hbase, hplus, hoffset, hclose, of_bind]
  rfl

theorem move_eq : move stream cursor = of (Opcode.ofMove w) := by
  apply bind_eq_of (operand_eq hlength hw (show 0 < 7 by decide))
  intro destination _
  have hlast := operand_eq hlength hw (show 6 < 7 by decide)
  have hsource := operand_eq hlength hw (show 2 < 7 by decide)
  split
  · rw [hlast, of_bind]
    rfl
  · split
    · rw [hsource, of_bind]
      rfl
    · rfl

theorem opcode_of_ofCursor : opcode stream cursor = of (Opcode.ofWindow w) := by
  rw [opcode, (getElem?_of_ofCursor hw).1]
  simp only [move_eq hlength hw]
  have hok : ∀ op : Opcode, (of (.ok op) : Checked SourceError Opcode) = pure op := fun _ => rfl
  have herror : ∀ cause : SourceError, (of (.error cause) : Checked SourceError Opcode) =
      throw cause := fun _ => rfl
  unfold Opcode.ofWindow
  split <;> simp_all

/-- An instruction is read from the tokens behind the cursor. -/
theorem instruction_of_ofCursor :
    instruction stream cursor = of (Instruction.ofWindow w) := by
  rw [instruction, Instruction.ofWindow, opcode_of_ofCursor hlength hw]
  apply bind_eq_of rfl
  intro op _
  cases op <;>
    simp only [expect_eq hlength hw, register_eq hlength hw, value_eq hlength hw,
      cell_eq hlength hw, Nat.reduceLT, of_bind] <;>
    rfl

end

variable {stream : List Token} (hlength : stream.length + 8 ≤ Word.modulus)

include hlength

/-- Every cursor into a stream has an opcode or an error. -/
theorem opcode_eq (cursor : Nat) :
    opcode stream cursor = of (Window.ofCursor stream cursor >>= Opcode.ofWindow) := by
  cases hdrop : stream.drop cursor with
  | nil =>
      have hnone : stream[cursor]? = none := List.getElem?_eq_none (List.drop_eq_nil_iff.mp hdrop)
      rw [opcode, hnone, Window.ofCursor, hdrop]
      rfl
  | cons mnemonic following =>
      have hw : Window.ofCursor stream cursor = .ok ⟨mnemonic, following⟩ := by
        rw [Window.ofCursor, hdrop]
      rw [opcode_of_ofCursor hlength hw, hw]
      rfl

/-- No check fails where an instruction is read, whatever stands at the cursor. -/
theorem instruction_eq (cursor : Nat) :
    instruction stream cursor = of (Instruction.ofCursor stream cursor) := by
  rw [Instruction.ofCursor]
  cases hw : Window.ofCursor stream cursor with
  | ok w => exact instruction_of_ofCursor hlength hw
  | error cause =>
      rw [instruction, opcode_eq hlength, hw]
      rfl

theorem words_eq (cursor : Nat) :
    words stream cursor = of ((Instruction.ofCursor stream cursor).map Instruction.encode) := by
  rw [words, instruction_eq hlength]
  cases Instruction.ofCursor stream cursor <;> rfl

/-! ## Labels -/

/-- Adds the labels from a cursor on.  An address is never above its cursor. -/
def labels (stream : List Token) (table : SymbolTable) (address : Word) (cursor : Nat) :
    Checked SourceError (SymbolTable × Word) := do
  check (address.toNat ≤ cursor)
  if cursor < stream.length then
    let t ← there stream[cursor]?
    if t.role = .declaration then
      let name ← of t.labelName
      let table ← of (table.declare ⟨name, address, t.index⟩)
      check (cursor + 1 < Word.modulus)
      labels stream table address (cursor + 1)
    else
      let op ← opcode stream cursor
      check (cursor + op.tokenCount < Word.modulus)
      if stream.length < cursor + op.tokenCount then
        throw (.unexpectedEnd t.index)
      check (address.toNat + op.wordCount < Word.modulus)
      labels stream table (address + UInt64.ofNat op.wordCount) (cursor + op.tokenCount)
  else
    return (table, address)
termination_by stream.length - cursor
decreasing_by
  · omega
  · have hpos := op.tokenCount_pos
    omega

/-- The label pass by cursors is the one on the stream. -/
theorem labels_eq (table : SymbolTable) {address : Word} {cursor : Nat}
    (haddress : address.toNat ≤ cursor) :
    labels stream table address cursor = of (table.scan address (stream.drop cursor)) := by
  induction hleft : stream.length - cursor using Nat.strong_induction_on
    generalizing table address cursor with
  | _ left ih =>
      rw [labels, check_bind haddress]
      split
      · next hlt =>
        obtain ⟨t, ht, hdrop, hw⟩ := exists_window hlt
        rw [ht, hdrop, SymbolTable.scan]
        change (if t.role = .declaration then _ else _) =
          of (if t.role = .declaration then _ else _)
        split
        · apply bind_eq_of rfl
          intro name _
          apply bind_eq_of rfl
          intro table' _
          rw [check_bind (by omega)]
          exact ih _ (by omega) table' (Nat.le_succ_of_le haddress) rfl
        · rw [opcode_of_ofCursor hlength hw]
          apply bind_eq_of rfl
          intro op _
          have hcount := op.tokenCount_le
          have hwords := op.wordCount_le_tokenCount
          have hpos := op.wordCount_pos
          have hiff : (stream.drop (cursor + 1)).length + 1 < op.tokenCount ↔
              stream.length < cursor + op.tokenCount := by
            rw [List.length_drop]
            omega
          rw [check_bind (by omega)]
          by_cases hshort : stream.length < cursor + op.tokenCount
          · rw [if_pos hshort, if_pos (hiff.mpr hshort)]
            rfl
          · have hfits : address.toNat + op.wordCount < Word.modulus := by omega
            have hnext : (address + UInt64.ofNat op.wordCount).toNat ≤
                cursor + op.tokenCount := by
              rw [Word.toNat_add_ofNat hfits]
              omega
            rw [if_neg hshort, if_neg (mt hiff.mp hshort)]
            have hrest := ih _ (by omega) table hnext rfl
            rw [← op.drop_operands] at hrest
            exact (check_bind hfits _).trans hrest
      · next hge =>
        rw [List.drop_eq_nil_of_le (not_lt.mp hge), SymbolTable.scan]
        rfl

/-- The words from a cursor on, behind those that are given. -/
def code (size : Nat) (stream : List Token) (words : List Word) (cursor : Nat) :
    Checked SourceError (List Word) := do
  if cursor < stream.length then
    let ins ← instruction stream cursor
    let words := words ++ ins.encode
    check (cursor + ins.tokenCount < Word.modulus)
    if size < words.length then
      throw (.outOfMemory words.length size)
    code size stream words (cursor + ins.tokenCount)
  else
    return words
termination_by stream.length - cursor
decreasing_by
  have hpos : 0 < ins.tokenCount := ins.opcode.tokenCount_pos
  omega

/-- A machine into which the words of a stream are copied.  The cells that they are copied to
are as many as the words. -/
def machine (size : Nat) (stream : List Token) : Checked SourceError Machine := do
  let words ← code size stream [] 0
  let memory := Memory.cleared size
  check (words.length ≤ memory.size)
  check ((memory.toList.take words.length).length = words.length)
  return {
    memory := memory.overwrite words
    registers := { esp := UInt64.ofNat (size - 1) }
    programLength := words.length }

/-- The words of the instructions that are read fill no more than the memory. -/
theorem code_eq (size : Nat) (words : List Word) (cursor : Nat) :
    code size stream words cursor =
      of ((Instruction.listOfTokens size words.length (stream.drop cursor)).map fun list =>
        words ++ Instruction.encodeAll list) := by
  induction hleft : stream.length - cursor using Nat.strong_induction_on
    generalizing words cursor with
  | _ left ih =>
      rw [code]
      split
      · next hlt =>
        obtain ⟨t, -, hdrop, hw⟩ := exists_window hlt
        rw [hdrop, Instruction.listOfTokens, instruction_of_ofCursor hlength hw, map_of_bind]
        apply bind_eq_of rfl
        intro ins hins
        have hcount : ins.tokenCount ≤ 8 := ins.opcode.tokenCount_le
        have hpos : 0 < ins.tokenCount := ins.opcode.tokenCount_pos
        have hwords : (words ++ ins.encode).length = words.length + ins.wordCount := by
          rw [List.length_append, Instruction.length_encode]
        rw [check_bind (by omega), hwords]
        by_cases hfull : size < words.length + ins.wordCount
        · rw [if_pos hfull, if_pos hfull]
          rfl
        · rw [if_neg hfull, if_neg hfull]
          have hrest := ih _ (by omega) (words ++ ins.encode) (cursor + ins.tokenCount) rfl
          rw [← ins.opcode.drop_operands, hwords] at hrest
          refine hrest.trans ?_
          cases Instruction.listOfTokens size (words.length + ins.wordCount)
            ((stream.drop (cursor + 1)).drop (ins.tokenCount - 1)) with
          | error cause => rfl
          | ok list => exact congrArg (fun words => of (.ok words)) (List.append_assoc _ _ _)
      · next hge =>
        rw [List.drop_eq_nil_of_le (not_lt.mp hge), Instruction.listOfTokens]
        simp [Instruction.encodeAll, Except.map]
        rfl

end Checked

theorem Instruction.length_le_of_listOfTokens {size used : Nat} {stream : List Token}
    {list : List (Instruction Word)} (hused : used ≤ size)
    (h : listOfTokens size used stream = .ok list) :
    used + (encodeAll list).length ≤ size := by
  induction list generalizing used stream with
  | nil => exact hused
  | cons ins rest ih =>
      cases stream with
      | nil =>
          rw [listOfTokens] at h
          cases h
      | cons t following =>
          obtain ⟨_, _, -, hfits, hrest, hcons⟩ := listOfTokens_cons_eq_ok_iff.mp h
          cases hcons
          have hle := ih hfits hrest
          rw [encodeAll, List.flatMap_cons, List.length_append, length_encode]
          exact (Nat.add_assoc _ _ _).symm.trans_le hle

theorem Memory.overwrite_cleared {size : Nat} {words : List Word} (h : words.length ≤ size) :
    (cleared size).overwrite words = ofWords size words := by
  apply Array.toList_inj.mp
  simp [overwrite, cleared, ofWords, List.take_of_length_le h]

namespace Checked

variable {stream : List Token}

/-- No check fails where the words of a stream are copied into memory. -/
theorem machine_eq (hlength : stream.length + 8 ≤ Word.modulus) (size : Nat) :
    machine size stream = of (Machine.ofTokens size stream) := by
  rw [machine, code_eq hlength, Machine.ofTokens]
  cases hlist : Instruction.listOfTokens size 0 stream with
  | error cause =>
      rw [List.length_nil, List.drop_zero, hlist]
      rfl
  | ok list =>
      have hfits : (Instruction.encodeAll list).length ≤ size := by
        simpa using Instruction.length_le_of_listOfTokens (Nat.zero_le _) hlist
      have hroom : (Instruction.encodeAll list).length ≤ (Memory.cleared size).size := by
        simpa [Memory.cleared] using hfits
      have hcopied :
          ((Memory.cleared size).toList.take (Instruction.encodeAll list).length).length =
            (Instruction.encodeAll list).length := by
        rw [List.length_take, Array.length_toList]
        exact min_eq_left hroom
      rw [List.length_nil, List.drop_zero, hlist]
      refine (check_bind hroom _).trans ((check_bind hcopied _).trans ?_)
      simp only [List.nil_append, Memory.overwrite_cleared hfits]
      rfl

def program (source : String) (limits : Limits) : Checked SourceError Program := do
  let stream ← there (Source.cut source)
  let (labels, _) ← labels stream {} 0 0
  let resolved ← of (labels.resolve stream)
  let machine ← machine limits.memorySize resolved
  return { machine, labels }

theorem count_le_utf8ByteSize (c : Char) (text : List Char) :
    text.count c ≤ (String.ofList text).utf8ByteSize := by
  induction text with
  | nil => exact Nat.zero_le _
  | cons c' rest ih =>
      have hpos := c'.utf8Size_pos
      rw [String.ofList_cons, String.utf8ByteSize_append, String.utf8ByteSize_singleton,
        List.count_cons]
      split <;> omega

/-- A text has at most one token more than bytes. -/
theorem length_tokens_le (source : String) :
    (Source.tokens source).length ≤ source.utf8ByteSize + 1 := by
  have hcount := count_le_utf8ByteSize ' ' source.toList
  rw [String.ofList_toList] at hcount
  rw [Source.length_tokens]
  exact Nat.succ_le_succ hcount

theorem length_resolve_le {table : SymbolTable} {resolved : List Token}
    (h : table.resolve stream = .ok resolved) : resolved.length ≤ stream.length := by
  rw [← (SymbolTable.resolve_eq_ok_iff.mp h).length_eq]
  exact List.length_filter_le _ _

/-- No check fails on the way from a source text to a program or to an error. -/
theorem program_eq {source : String} (hsource : source.utf8ByteSize < 2 ^ 63) (limits : Limits) :
    program source limits = of (Program.ofSource source limits) := by
  have hmodulus : Word.modulus = 2 ^ 64 := rfl
  have hlength : (Source.tokens source).length + 8 ≤ Word.modulus := by
    have hle := length_tokens_le source
    omega
  rw [program, Source.cut_eq_tokens (by omega)]
  have hlabels := labels_eq hlength {} (show (0 : Word).toNat ≤ 0 from le_rfl)
  rw [List.drop_zero] at hlabels
  change labels (Source.tokens source) {} 0 0 >>= _ = _
  rw [hlabels, Program.ofSource, SymbolTable.ofTokens, bind_of_map]
  apply bind_eq_of rfl
  intro (table, address) _
  apply bind_eq_of rfl
  intro resolved hresolved
  have hshort := length_resolve_le hresolved
  apply bind_eq_of (machine_eq (by omega) limits.memorySize)
  intro machine _
  rfl

end Checked

end WordMachine
