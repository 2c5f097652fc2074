import Mathlib
import WordMachine.Proofs.CheckedPasses
import WordMachine.Proofs.Sessions

/-!
# Checked listings, runs and sessions

A listing of a loaded program ends each instruction inside the program.  A run and a session
count steps up to a limit, and a session cuts its windows out of the listing and takes one
from the steps that are pending.  None of this fails, for any program, limit and typed text.
-/

namespace WordMachine

namespace Checked

/-- The rows from an address on.  Each instruction ends inside the program. -/
def rows (memory : Memory) (length address : Nat) : Checked Fault (List Row) := do
  if address < length then
    let ins ← of (Instruction.ofMemory memory (UInt64.ofNat address))
    check (address + ins.wordCount < Word.modulus)
    check (address + ins.wordCount ≤ length)
    let later ← rows memory length (address + ins.wordCount)
    return ⟨UInt64.ofNat address, ins⟩ :: later
  else
    return []
termination_by length - address
decreasing_by
  have hpos : 0 < ins.wordCount := ins.wordCount_pos
  omega

/-- No check fails in a listing whose rows lead to the end of the program. -/
theorem rows_eq {memory : Memory} {length address : Nat} {list : List Row}
    (hlength : length < Word.modulus) (hlist : Row.listFrom memory length address = .ok list)
    (hcontiguous : Row.Contiguous address length list) :
    rows memory length address = of (.ok list) := by
  induction list generalizing address with
  | nil =>
      obtain rfl : address = length := hcontiguous
      rw [rows, if_neg (lt_irrefl address)]
      rfl
  | cons row rest ih =>
      obtain ⟨hlt, haddress, hins, hlater⟩ := Row.listFrom_eq_ok_cons hlist
      have hle : address + row.ins.wordCount ≤ length := hcontiguous.2.le
      rw [rows, if_pos hlt, ← haddress, hins]
      refine (check_bind (by omega) _).trans ((check_bind hle _).trans ?_)
      rw [ih hlater hcontiguous.2]
      rfl

/-- The part of a list between two indices, if they are in order and in range. -/
def slice? {A : Type} (xs : List A) (first last : Nat) : Option (List A) :=
  if first ≤ last ∧ last ≤ xs.length then some ((xs.take last).drop first) else none

def window? (rows : List Row) (ip : Word) : Option (List Row) := do
  let current := (rows.findIdx? fun row => row.address == ip).getD 0
  let first := current - Debugger.windowHeight / 2
  guard (first + Debugger.windowHeight < Word.modulus)
  slice? rows first (min (first + Debugger.windowHeight) rows.length)

/-- Every instruction pointer has a window. -/
theorem window?_eq {rows : List Row} (hrows : rows.length + 16 ≤ Word.modulus) (ip : Word) :
    window? rows ip = some (Debugger.window rows ip) := by
  have hcurrent : (rows.findIdx? fun row => row.address == ip).getD 0 ≤ rows.length := by
    cases hfind : rows.findIdx? fun row => row.address == ip with
    | none => exact Nat.zero_le _
    | some i => exact (List.findIdx?_eq_some_iff_findIdx_eq.mp hfind).1.le
  rw [window?, Debugger.window, Debugger.windowHeight]
  generalize (rows.findIdx? fun row => row.address == ip).getD 0 = current at hcurrent ⊢
  have hinside : current - 15 / 2 ≤ min (current - 15 / 2 + 15) rows.length ∧
      min (current - 15 / 2 + 15) rows.length ≤ rows.length := by omega
  have htake : min (min (current - 15 / 2 + 15) rows.length - (current - 15 / 2))
      (rows.length - (current - 15 / 2)) = min 15 (rows.length - (current - 15 / 2)) := by omega
  rw [guard_eq_some (by omega), slice?, if_pos hinside, List.drop_take]
  apply congrArg some
  rw [List.take_eq_take_iff, List.length_drop, htake]

/-- A run that counts its steps up to the limit. -/
def run {Log : Type} (note : Log → Event → Log) (limit : Nat) (s : State) (log : Log) :
    Option (Run Log) :=
  if _ : s.halted = true then
    some ⟨s, log, .ok s.machine.registers.eax⟩
  else if _ : limit ≤ s.steps then
    some ⟨s, log, .error (s.outOfSteps limit)⟩
  else do
    guard (s.steps + 1 < Word.modulus)
    guard (s.next.steps ≤ limit)
    let log := s.step.events.foldl note log
    match _ : s.step.fault with
    | some fault => some ⟨s.next, log, .error (.fault fault)⟩
    | none => run note limit s.next log
termination_by limit - s.steps
decreasing_by
  have hsteps : s.next.steps = s.steps + 1 :=
    State.steps_step (Bool.eq_false_of_not_eq_true ‹_›) ‹_›
  omega

theorem steps_next_le (s : State) : s.next.steps ≤ s.steps + 1 := by
  unfold State.next State.step
  split
  · exact Nat.le_succ _
  · split
    · exact Nat.le_succ _
    · exact le_rfl

/-- No check fails in a run. -/
theorem run_eq {Log : Type} (note : Log → Event → Log) {limit : Nat}
    (hlimit : limit < Word.modulus) (s : State) (log : Log) :
    run note limit s log = some (s.run note limit log) := by
  induction hleft : limit - s.steps using Nat.strong_induction_on generalizing s log with
  | _ left ih =>
      rw [run]
      split
      · next hhalted => exact congrArg some (State.run_of_halted hhalted).symm
      · next hrunning =>
        replace hrunning := Bool.eq_false_of_not_eq_true hrunning
        split
        · next hspent => exact congrArg some (State.run_of_spent hrunning hspent).symm
        · next hleft' =>
          have hlt := not_le.mp hleft'
          have hnext := steps_next_le s
          rw [guard_eq_some (by omega), guard_eq_some (by omega)]
          simp only [Option.bind_eq_bind, Option.bind_some]
          split
          · next fault hfault => exact congrArg some (State.run_of_fault hrunning hlt hfault).symm
          · next hok =>
            have hsteps : s.next.steps = s.steps + 1 := State.steps_step hrunning hok
            rw [ih _ (by omega) s.next _ rfl, State.run_of_step hrunning hlt hok]

open Debugger in
/-- A session that takes each step from those that are pending. -/
def session (rows : List Row) (limit : Nat) (s : State) (pending : Nat) (typed : Typed) :
    Option Session :=
  if _ : s.halted = true then
    some ⟨[.summary s.steps s.machine.registers.eax], .finished⟩
  else do
    let window ← window? rows s.machine.ip
    let answer := typed.answer pending
    let asked :=
      .frame { Frame.ofState rows s with rows := window } ::
        List.replicate answer.prompts .prompt
    match answer.steps with
    | none => some ⟨asked, .waiting⟩
    | some steps =>
      if _ : limit ≤ s.steps then
        some ⟨asked, .failed (s.outOfSteps limit)⟩
      else
        guard (s.steps + 1 < Word.modulus)
        guard (s.next.steps ≤ limit)
        let shown := asked ++ s.step.events.map .logged
        match _ : s.step.fault with
        | some fault => some ⟨shown, .failed (.fault fault)⟩
        | none =>
          guard (1 ≤ steps)
          let later ← session rows limit s.next (steps - 1) { typed with lines := answer.rest }
          return later.after shown
termination_by limit - s.steps
decreasing_by
  have hsteps : s.next.steps = s.steps + 1 :=
    State.steps_step (Bool.eq_false_of_not_eq_true ‹_›) ‹_›
  omega

/-- No check fails in a session. -/
theorem session_eq {rows : List Row} (hrows : rows.length + 16 ≤ Word.modulus) {limit : Nat}
    (hlimit : limit < Word.modulus) (s : State) (pending : Nat) (typed : Debugger.Typed) :
    session rows limit s pending typed =
      some (Debugger.sessionFor rows limit (limit - s.steps) s pending typed) := by
  generalize hleft : limit - s.steps = remaining
  induction remaining generalizing s pending typed with
  | zero =>
      rw [session, Debugger.sessionFor, window?_eq hrows]
      split
      · rfl
      · simp only [Option.bind_eq_bind, Option.bind_some]
        cases (typed.answer pending).steps with
        | none => rfl
        | some steps =>
            simp only [dif_pos (Nat.le_of_sub_eq_zero hleft)]
            rfl
  | succ remaining ih =>
      rw [session, Debugger.sessionFor, window?_eq hrows]
      split
      · rfl
      · next hrunning =>
        replace hrunning := Bool.eq_false_of_not_eq_true hrunning
        simp only [Option.bind_eq_bind, Option.bind_some]
        cases hasked : (typed.answer pending).steps with
        | none => rfl
        | some steps =>
            have hpos := Debugger.Typed.pos_of_answer hasked
            have hnext := steps_next_le s
            have hlt : ¬ limit ≤ s.steps := by omega
            simp only [dif_neg hlt]
            rw [guard_eq_some (by omega), guard_eq_some (by omega)]
            simp only [Option.bind_some]
            split
            · next fault hfault =>
              simp only [hfault]
              rfl
            · next hok =>
              have hsteps : s.next.steps = s.steps + 1 := State.steps_step hrunning hok
              rw [guard_eq_some (by omega), ih _ _ _ (by omega)]
              simp only [hok]
              rfl

end Checked

theorem Outline.length_code_le (outline : Outline) :
    outline.code.length ≤ outline.tokens.length := by
  induction outline with
  | nil => exact le_rfl
  | cons item rest ih =>
      cases item with
      | declaration name => exact Nat.le_succ_of_le ih
      | instruction ins =>
          have hpos := ins.opcode.tokenCount_pos
          rw [tokens_instruction, List.length_append, Instruction.length_tokens, code_instruction,
            List.length_cons, Nat.add_comm]
          exact Nat.add_le_add hpos ih

/-- No check fails.  A source text is cut at the boundaries of characters, and each token that
the passes ask for is there, at whatever cursor of whatever stream an instruction is read.  The
addresses of labels stay below the cursors, and the words fit in memory.  The listing of a
program stays inside it, and every instruction pointer has a window on every listing.  A run and
a session take no more steps than they are granted and no step that is not pending.

Allocation is not among the checks.  From `2 ^ 60` words on a memory is larger than any allocation
can be, and asking for one is refused where here there is a memory of that size. -/
theorem Program.checks_hold {source : String} {limits : Limits}
    (hsource : source.utf8ByteSize < 2 ^ 63) (hsize : limits.memorySize < Word.modulus)
    (hlimit : limits.stepLimit < Word.modulus) :
    Source.cut source = some (Source.tokens source) ∧
    Checked.program source limits = .of (ofSource source limits) ∧
    (∀ p, ofSource source limits = .ok p →
      ∃ rows, p.machine.listing = .ok rows ∧
        Checked.rows p.machine.memory p.machine.programLength 0 = .of p.machine.listing ∧
        (∀ {Log : Type} (note : Log → Event → Log) (log : Log),
          Checked.run note limits.stepLimit (.start p.machine) log =
            some ((State.start p.machine).run note limits.stepLimit log)) ∧
        ∀ typed, Checked.session rows limits.stepLimit (.start p.machine) 0 typed =
          some (Debugger.session p limits rows typed)) ∧
    (∀ stream : List Token, stream.length < 2 ^ 63 → ∀ cursor,
      Checked.opcode stream cursor =
          .of (Window.ofCursor stream cursor >>= Opcode.ofWindow) ∧
        Checked.instruction stream cursor = .of (Instruction.ofCursor stream cursor) ∧
        Checked.words stream cursor =
          .of ((Instruction.ofCursor stream cursor).map Instruction.encode)) ∧
    ∀ (rows : List Row) (ip : Word), rows.length < 2 ^ 63 →
      Checked.window? rows ip = some (Debugger.window rows ip) := by
  have hmodulus : Word.modulus = 2 ^ 64 := rfl
  refine ⟨Source.cut_eq_tokens (by omega), Checked.program_eq hsource limits, ?_, ?_, ?_⟩
  · intro p hp
    obtain ⟨outline, hspells, hwf, hfits, rfl⟩ := ofSource_eq_ok_iff.mp hp
    have hlisting := Outline.listing_program hfits hsize
    have hlength := hfits.trans_lt hsize
    have hcontiguous := outline.contiguous_image hlength
    rw [← outline.programLength_program limits] at hlength hcontiguous
    refine ⟨_, hlisting, ?_, ?_, ?_⟩
    · rw [hlisting]
      exact Checked.rows_eq hlength hlisting hcontiguous
    · intro Log note log
      exact Checked.run_eq note hlimit _ log
    · intro typed
      have hcode := outline.length_code_le
      have htokens := Checked.length_tokens_le source
      rw [hspells.tokens_eq, Token.length_numbered] at htokens
      apply Checked.session_eq _ hlimit
      rw [Row.length_listOf, Outline.image, List.length_map]
      omega
  · intro stream hlength cursor
    exact ⟨Checked.opcode_eq (by omega) cursor, Checked.instruction_eq (by omega) cursor,
      Checked.words_eq (by omega) cursor⟩
  · intro rows ip hrows
    exact Checked.window?_eq (by omega) ip

/-- A label of two bytes. -/
theorem Program.checks_hold_wide :
    Checked.program "jmp .é :é exit" { memorySize := 3, maxSteps := some 2 } =
        .of (.ok ⟨.loaded 3 [2, 2, 12], ⟨[⟨"é", 2, 2⟩]⟩⟩) ∧
      Checked.run (fun _ _ => ()) 2 (.start (.loaded 3 [2, 2, 12])) () =
        some ((State.start (.loaded 3 [2, 2, 12])).runSilently 2) := by
  have hsource : ofSource "jmp .é :é exit" { memorySize := 3, maxSteps := some 2 } =
      .ok ⟨.loaded 3 [2, 2, 12], ⟨[⟨"é", 2, 2⟩]⟩⟩ := by cbv
  have hbytes : "jmp .é :é exit".utf8ByteSize < 2 ^ 63 := by decide
  have hsize : ({ memorySize := 3, maxSteps := some 2 } : Limits).memorySize < Word.modulus := by
    decide
  obtain ⟨-, hprogram, hruns, -⟩ := Program.checks_hold hbytes hsize (by decide)
  obtain ⟨rows, -, -, hrun, -⟩ := hruns _ hsource
  exact ⟨hprogram.trans (congrArg Checked.of hsource), hrun _ _⟩

end WordMachine
