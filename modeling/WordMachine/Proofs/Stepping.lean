import Mathlib
import WordMachine.Execution

/-!
# Steps

A step of a machine that has not halted reads an instruction and carries it out.  Where
none can be read the state stays as it is.  Steps are taken in a row until the machine has
halted, one of them fails or there are none left, and from every state there is such an
end.
-/

namespace WordMachine.State

variable {limit k m : Nat} {s t : State} {events : List Event}

def next (s : State) : State := s.step.state

theorem step_of_fetch {ins : Instruction Word} (hrunning : s.halted = false)
    (hfetch : Instruction.ofMemory s.machine.memory s.machine.ip = .ok ins) :
    s.step = ⟨⟨(s.machine.execute ins).machine, (s.machine.execute ins).halts, s.steps + 1⟩,
      .fetched ins s.machine.ip :: (s.machine.execute ins).events,
      (s.machine.execute ins).fault⟩ := by
  simp only [step, hrunning, hfetch, Bool.false_eq_true, if_false]

theorem step_of_fetch_error {fault : Fault} (hrunning : s.halted = false)
    (hfetch : Instruction.ofMemory s.machine.memory s.machine.ip = .error fault) :
    s.step = ⟨s, [], some fault⟩ := by
  simp only [step, hrunning, hfetch, Bool.false_eq_true, if_false]

/-- Steps in a row, with their events.  Each of them succeeds, on a machine that has not
halted and has steps left. -/
inductive Advances (limit : Nat) : State → List Event → State → Prop
  | refl (s : State) : Advances limit s [] s
  | step {s t : State} {events : List Event} (hrunning : s.halted = false)
      (hleft : s.steps < limit) (hok : s.step.fault = none)
      (hrest : Advances limit s.next events t) :
      Advances limit s (s.step.events ++ events) t

/-- What is left of a run in a state in which it ends: the last state, the last events and
the result. -/
inductive Ends (limit : Nat) (s : State) : State → List Event → Except Error Word → Prop
  | halted (hhalted : s.halted = true) : Ends limit s s [] (.ok (s.machine.get .eax))
  | spent (hrunning : s.halted = false) (hspent : limit ≤ s.steps) :
      Ends limit s s [] (.error (.stepLimit s.machine.ip limit))
  | faulted (hrunning : s.halted = false) (hleft : s.steps < limit) {fault : Fault}
      (hfault : s.step.fault = some fault) :
      Ends limit s s.next s.step.events (.error (.fault fault))

/-- The outcome of single steps, taken until the run ends. -/
def StepsTo (limit : Nat) (s t : State) (events : List Event) (result : Except Error Word) :
    Prop :=
  ∃ last front back, s.Advances limit front last ∧ last.Ends limit t back result ∧
    events = front ++ back

theorem StepsTo.step {result : Except Error Word} (hrunning : s.halted = false)
    (hleft : s.steps < limit) (hok : s.step.fault = none)
    (h : s.next.StepsTo limit t events result) :
    s.StepsTo limit t (s.step.events ++ events) result := by
  obtain ⟨last, front, back, hfront, hback, rfl⟩ := h
  exact ⟨last, s.step.events ++ front, back, .step hrunning hleft hok hfront, hback,
    (List.append_assoc _ _ _).symm⟩

/-- Single steps lead to an end. -/
theorem exists_stepsTo (limit : Nat) (s : State) :
    ∃ t events result, s.StepsTo limit t events result := by
  -- The number of steps that are left falls with each step that succeeds.
  induction hleft : limit - s.steps using Nat.strong_induction_on generalizing s with
  | _ remaining ih =>
      cases hhalted : s.halted with
      | true => exact ⟨s, [], _, s, [], [], .refl s, .halted hhalted, rfl⟩
      | false =>
          rcases Nat.lt_or_ge s.steps limit with hlt | hspent
          · cases hstep : s.step.fault with
            | some fault =>
                exact ⟨s.next, _, _, s, [], _, .refl s, .faulted hhalted hlt hstep, rfl⟩
            | none =>
                have hsteps : s.next.steps = s.steps + 1 := steps_step hhalted hstep
                obtain ⟨t, -, result, last, front, back, hfront, hback, -⟩ :=
                  ih (limit - s.next.steps) (by omega) s.next rfl
                exact ⟨t, _, result, last, _, back, .step hhalted hlt hstep hfront, hback, rfl⟩
          · exact ⟨s, [], _, s, [], [], .refl s, .spent hhalted hspent, rfl⟩

theorem Advances.mono (hkm : k ≤ m) (h : s.Advances k events t) : s.Advances m events t := by
  induction h with
  | refl s => exact .refl s
  | step hrunning hleft hok _ ih => exact .step hrunning (hleft.trans_le hkm) hok ih

theorem Advances.le_steps (h : s.Advances limit events t) : s.steps ≤ t.steps := by
  induction h with
  | refl s => exact le_rfl
  | step hrunning hleft hok _ ih =>
      rw [next, steps_step hrunning hok] at ih
      exact (Nat.le_succ _).trans ih

theorem Advances.steps_le (h : s.Advances limit events t) : t.steps ≤ max s.steps limit := by
  induction h with
  | refl s => exact le_max_left _ _
  | step hrunning hleft hok _ ih =>
      rw [next, steps_step hrunning hok, max_eq_right hleft] at ih
      exact ih.trans (le_max_right _ _)

end WordMachine.State
