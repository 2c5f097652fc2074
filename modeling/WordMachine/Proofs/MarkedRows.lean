import Mathlib
import WordMachine.Proofs.Changes
import WordMachine.Proofs.Windows

/-!
# Marked rows and the steps behind them

A session decodes the listing once, before the first step, and each step decodes the words
that are in memory by then.  So the marked row is about the next step as long as its words
have not been overwritten, and a program that stores into its own code can be shown
one instruction and carry out another.
-/

namespace WordMachine

/-- Whether a row has the text and the words of an instruction. -/
def Row.Shows (row : Row) (ins : Instruction Word) : Prop :=
  row.ins.text = ins.text ∧ row.ins.encode = ins.encode

namespace Row

variable {loaded memory : Memory} {row : Row} {ins : Instruction Word}

/-- The words of an instruction tell it from all others. -/
theorem shows_iff : row.Shows ins ↔ row.ins = ins := by
  constructor
  · rintro ⟨-, hwords⟩
    exact Instruction.eq_of_encode_prefix (hwords ▸ List.prefix_rfl)
  · rintro rfl
    exact ⟨rfl, rfl⟩

/-- A row that was read from one memory shows what another memory holds at its address
exactly if its words are the same in both. -/
theorem shows_iff_read?_eq (hrow : Instruction.ofMemory loaded row.address = .ok row.ins)
    (hins : Instruction.ofMemory memory row.address = .ok ins) :
    row.Shows ins ↔ ∀ k < row.ins.wordCount,
      memory.read? (row.address + UInt64.ofNat k) =
        loaded.read? (row.address + UInt64.ofNat k) := by
  rw [shows_iff]
  constructor
  · rintro rfl k hk
    rw [← Instruction.length_encode] at hk
    have hword := List.getElem?_eq_getElem hk
    rw [Memory.reads_zero_iff.mp (Instruction.reads_of_ofMemory hins) k _ hword,
      Memory.reads_zero_iff.mp (Instruction.reads_of_ofMemory hrow) k _ hword]
  · intro hwords
    have hsame := (Instruction.ofMemory_eq_ok_congr hwords).mpr hrow
    exact Except.ok.inj (hsame.symm.trans hins)

end Row

/-- What a step fetches is what is read at the instruction pointer. -/
theorem State.ofMemory_of_fetched {s : State} {ins : Instruction Word} {address : Word}
    (h : .fetched ins address ∈ s.step.events) :
    s.halted = false ∧ address = s.machine.ip ∧
      Instruction.ofMemory s.machine.memory s.machine.ip = .ok ins := by
  cases hhalted : s.halted with
  | true =>
      rw [step_of_halted hhalted] at h
      simp at h
  | false =>
      cases hfetch : Instruction.ofMemory s.machine.memory s.machine.ip with
      | error fault =>
          rw [step_of_fetch_error hhalted hfetch] at h
          simp at h
      | ok first =>
          have hrow : (⟨address, ins⟩ : Row) ∈ Event.rows s.step.events :=
            List.mem_filterMap.mpr ⟨_, h, rfl⟩
          rw [rows_step_of_fetch hhalted hfetch, List.mem_singleton] at hrow
          cases hrow
          exact ⟨rfl, rfl, rfl⟩

/-- A program whose first instruction makes an `exit` of the second. -/
def Outline.overwriting : Outline :=
  [.instruction (.storeValue .eax (.literal "4") (.literal "12")), .instruction (.inc .eax)]

theorem Outline.overwriting_ofSource :
    Program.ofSource "mov [ eax + 4 ] , 12 inc eax" { memorySize := 8, maxSteps := some 5 } =
      .ok (overwriting.program { memorySize := 8 }) :=
  (ofSource_eq_ok_iff_of_spells (by decide +kernel) (by decide)).mpr ⟨by decide +kernel, rfl⟩

namespace Debugger

/-- The row that a session marks shows the instruction of the next step exactly if none of
its words has changed since the program was loaded, and so it does as long as nothing has been
written to them. -/
theorem session_marks_unchanged {source : String} {limits : Limits} {p : Program}
    (hsize : limits.memorySize < Word.modulus) (h : Program.ofSource source limits = .ok p) :
    ∃ rows, p.machine.listing = .ok rows ∧
      ∀ typed frame, .frame frame ∈ (session p limits rows typed).shown →
        ∃ s events, s = State.next^[frame.steps] (.start p.machine) ∧
          events = (State.start p.machine).eventsFor frame.steps ∧
          frame = .ofState rows s ∧
          ∀ row ∈ frame.rows, frame.marks row = true →
            ∀ ins, .fetched ins s.machine.ip ∈ s.step.events →
              (row.Shows ins ↔ ∀ k < row.ins.wordCount,
                s.machine.memory.read? (row.address + UInt64.ofNat k) =
                  p.machine.memory.read? (row.address + UInt64.ofNat k)) ∧
              ((∀ k < row.ins.wordCount, ∀ w,
                .wrote w (row.address + UInt64.ofNat k) ∉ events) → row.Shows ins) := by
  obtain ⟨rows, hrows, -⟩ := Program.exists_listing hsize h
  refine ⟨rows, hrows, ?_⟩
  intro typed frame hframe
  have heq := eq_ofState_of_mem_session hframe
  refine ⟨_, _, rfl, rfl, heq, ?_⟩
  intro row hrow hmarks ins hfetched
  have hlisted : row ∈ rows := by
    rw [heq] at hrow
    exact (window_isInfix _ _).subset hrow
  have haddress : row.address = (State.next^[frame.steps] (.start p.machine)).machine.ip := by
    rw [heq] at hmarks
    exact Frame.marks_iff.mp hmarks
  have hloaded := Row.ofMemory_of_mem_listFrom hrows row hlisted
  obtain ⟨-, -, hins⟩ := State.ofMemory_of_fetched hfetched
  rw [← haddress] at hins
  have hiff := Row.shows_iff_read?_eq hloaded hins
  refine ⟨hiff, fun hwrites => hiff.mpr fun k hk => ?_⟩
  have hreaches : (State.start p.machine).Reaches _ (State.next^[frame.steps] (.start p.machine)) :=
    ⟨frame.steps, rfl, rfl⟩
  exact hreaches.read?_eq (hwrites k hk)

/-- The first row that is marked shows what the first step does. -/
theorem session_marks_unchanged_overwriting :
    ∃ rows, (Outline.overwriting.program { memorySize := 8 }).machine.listing = .ok rows ∧
      ∀ typed frame, .frame frame ∈ (session (Outline.overwriting.program { memorySize := 8 })
          { memorySize := 8, maxSteps := some 5 } rows typed).shown → frame.steps = 0 →
        ∀ row ∈ frame.rows, frame.marks row = true →
          row.Shows (.storeValue .eax 4 12) := by
  obtain ⟨rows, hrows, hframes⟩ :=
    session_marks_unchanged (by decide) Outline.overwriting_ofSource
  refine ⟨rows, hrows, ?_⟩
  intro typed frame hframe hsteps row hrow hmarks
  obtain ⟨s, events, hs, hevents, -, hmarked⟩ := hframes typed frame hframe
  rw [hsteps] at hs hevents
  subst hs hevents
  have hfetched : Event.fetched (.storeValue .eax 4 12) (State.start
      (Outline.overwriting.program { memorySize := 8 }).machine).machine.ip ∈ (State.start
        (Outline.overwriting.program { memorySize := 8 }).machine).step.events := by
    decide +kernel
  exact (hmarked row hrow hmarks _ hfetched).2 fun _ _ _ => List.not_mem_nil

/-- The second row that is marked shows `inc eax` where the step carries out `exit`. -/
theorem session_marks_overwritten :
    ∃ p rows frame row,
      Program.ofSource "mov [ eax + 4 ] , 12 inc eax" { memorySize := 8, maxSteps := some 5 } =
        .ok p ∧
      p.machine.listing = .ok rows ∧
      .frame frame ∈ (session p { memorySize := 8, maxSteps := some 5 } rows (.ofText "")).shown ∧
      row ∈ frame.rows ∧ frame.marks row = true ∧
      .fetched .exit frame.registers.eip ∈
        (State.next^[frame.steps] (.start p.machine)).step.events ∧
      row.ins.text ≠ Instruction.exit.text ∧ row.ins.encode ≠ Instruction.exit.encode := by
  refine ⟨Outline.overwriting.program { memorySize := 8 }, Row.listOf 0 Outline.overwriting.image,
    .ofState (Row.listOf 0 Outline.overwriting.image)
      (State.start (Outline.overwriting.program { memorySize := 8 }).machine).next,
    ⟨4, .inc .eax⟩, Outline.overwriting_ofSource,
    Outline.listing_program (by decide +kernel) (by decide), ?_, ?_, ?_, ?_, ?_, ?_⟩
  all_goals decide +kernel

end Debugger

end WordMachine
