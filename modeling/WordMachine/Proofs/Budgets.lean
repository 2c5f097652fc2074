import Mathlib
import WordMachine.Proofs.Stepping

/-!
# Step budgets

A run does what single steps do: they are taken until the machine has halted, one of them
fails or the step counter has reached the limit.  Where a run goes on after it has used up
its steps, it goes on as one run under the larger limit would have.
-/

namespace WordMachine

namespace State

variable {Log : Type} {note : Log → Event → Log} {log : Log} {limit k m : Nat}
variable {s t : State} {events : List Event} {result : Except Error Word}

theorem run_of_halted (hhalted : s.halted = true) :
    s.run note limit log = ⟨s, log, .ok (s.machine.get .eax)⟩ := by
  rw [run]
  cases limit - s.steps with
  | zero => simp only [runFor, hhalted, if_true]; rfl
  | succ remaining => simp only [runFor, hhalted, if_true]; rfl

theorem run_of_spent (hrunning : s.halted = false) (hspent : limit ≤ s.steps) :
    s.run note limit log = ⟨s, log, .error (.stepLimit s.machine.ip limit)⟩ := by
  rw [run, Nat.sub_eq_zero_of_le hspent]
  simp only [runFor, hrunning, Bool.false_eq_true, if_false]
  rfl

theorem run_of_fault (hrunning : s.halted = false) (hleft : s.steps < limit) {fault : Fault}
    (hfault : s.step.fault = some fault) :
    s.run note limit log =
      ⟨s.next, s.step.events.foldl note log, .error (.fault fault)⟩ := by
  obtain ⟨remaining, hremaining⟩ := Nat.exists_eq_add_of_lt hleft
  have hsucc : limit - s.steps = remaining + 1 := by omega
  rw [run, hsucc]
  simp only [runFor, hrunning, hfault, Bool.false_eq_true, if_false]
  rfl

theorem run_of_step (hrunning : s.halted = false) (hleft : s.steps < limit)
    (hok : s.step.fault = none) :
    s.run note limit log = s.next.run note limit (s.step.events.foldl note log) := by
  have hsteps : s.next.steps = s.steps + 1 := steps_step hrunning hok
  have hsucc : limit - s.steps = limit - s.next.steps + 1 := by omega
  rw [run, hsucc]
  simp only [runFor, hrunning, hok, Bool.false_eq_true, if_false]
  rfl

theorem Advances.run_eq (h : s.Advances limit events t) :
    s.run note limit log = t.run note limit (events.foldl note log) := by
  induction h generalizing log with
  | refl s => rfl
  | step hrunning hleft hok hrest ih => rw [run_of_step hrunning hleft hok, ih, List.foldl_append]

theorem Ends.run_eq (h : s.Ends limit t events result) :
    s.run note limit log = ⟨t, events.foldl note log, result⟩ := by
  cases h with
  | halted hhalted => exact run_of_halted hhalted
  | spent hrunning hspent => exact run_of_spent hrunning hspent
  | faulted hrunning hleft hfault => exact run_of_fault hrunning hleft hfault

/-- A run keeps to the single steps, whatever it notes of their events. -/
theorem StepsTo.run_eq (h : s.StepsTo limit t events result) :
    s.run note limit log = ⟨t, events.foldl note log, result⟩ := by
  obtain ⟨last, front, back, hfront, hback, rfl⟩ := h
  rw [hfront.run_eq, hback.run_eq, List.foldl_append]

/-- A run with a log of all its events. -/
def record (limit : Nat) (s : State) : Run (List Event) :=
  s.run (fun events e => events ++ [e]) limit []

theorem StepsTo.record_eq (h : s.StepsTo limit t events result) :
    s.record limit = ⟨t, events, result⟩ := by
  rw [record, h.run_eq, List.foldl_append_eq_append, ← List.flatMap_def,
    List.flatMap_singleton', List.nil_append]

/-- A run that has not failed goes on as one run under a larger limit. -/
theorem run_run (hkm : k ≤ m)
    (hok : ∀ fault, (s.run note k log).result ≠ .error (.fault fault)) :
    (s.run note k log).state.run note m (s.run note k log).log = s.run note m log := by
  obtain ⟨t, -, result, last, front, back, hfront, hback, rfl⟩ := exists_stepsTo k s
  have hrun : s.run note k log = ⟨t, back.foldl note (front.foldl note log), result⟩ := by
    rw [hfront.run_eq, hback.run_eq]
  rw [hrun] at hok ⊢
  rw [(hfront.mono hkm).run_eq]
  cases hback with
  | halted | spent => rfl
  | faulted _ _ hfault => exact absurd rfl (hok _)

/-- A result that does not come from the limit is the result under every larger limit. -/
theorem run_eq_of_le (hkm : k ≤ m)
    (hok : ∀ ip limit, (s.run note k log).result ≠ .error (.stepLimit ip limit)) :
    s.run note m log = s.run note k log := by
  obtain ⟨t, -, result, last, front, back, hfront, hback, -⟩ := exists_stepsTo k s
  rw [hfront.run_eq, hback.run_eq] at hok
  rw [hfront.run_eq, (hfront.mono hkm).run_eq, hback.run_eq]
  cases hback with
  | halted hhalted => exact run_of_halted hhalted
  | spent => exact absurd rfl (hok _ _)
  | faulted hrunning hleft hfault => exact run_of_fault hrunning (hleft.trans_le hkm) hfault

/-- The limit is reported where steps that all succeed lead to it without a halt. -/
theorem result_run_eq_stepLimit_iff :
    (s.run note m log).result =
        .error (.stepLimit (s.run note m log).state.machine.ip m) ↔
      (s.run note m log).state.halted = false ∧ m ≤ (s.run note m log).state.steps ∧
        ∃ events, s.Advances m events (s.run note m log).state := by
  constructor
  · intro h
    obtain ⟨t, -, result, last, front, back, hfront, hback, -⟩ := exists_stepsTo m s
    rw [hfront.run_eq, hback.run_eq] at h ⊢
    cases hback with
    | halted => cases h
    | spent hrunning hspent => exact ⟨hrunning, hspent, front, hfront⟩
    | faulted => cases h
  · intro ⟨hrunning, hspent, front, hfront⟩
    have hrun : s.run note m log = _ := hfront.run_eq.trans (run_of_spent hrunning hspent)
    exact congrArg Run.result hrun

/-- A run that has used up its steps points at the instruction that it would have carried out. -/
theorem eq_of_result_run_eq_stepLimit {ip : Word}
    (h : (s.run note m log).result = .error (.stepLimit ip limit)) :
    ip = (s.run note m log).state.machine.ip ∧ limit = m ∧
      (s.run note m log).state.steps = max s.steps m := by
  obtain ⟨t, -, result, last, front, back, hfront, hback, -⟩ := exists_stepsTo m s
  rw [hfront.run_eq, hback.run_eq] at h ⊢
  cases hback with
  | halted => cases h
  | spent hrunning hspent =>
      cases h
      exact ⟨rfl, rfl, le_antisymm hfront.steps_le (max_le hfront.le_steps hspent)⟩
  | faulted => cases h

end State

namespace Program

/-- What a source text computes within a budget it computes within every larger one. -/
theorem evaluate_eq_of_le {k m : Nat} (hkm : k ≤ m) {source : String} {limits : Limits}
    (hok : ∀ ip limit, evaluate source { limits with maxSteps := some k } ≠
      .error (.stepLimit ip limit)) :
    evaluate source { limits with maxSteps := some m } =
      evaluate source { limits with maxSteps := some k } := by
  have hprogram : ∀ steps, ofSource source { limits with maxSteps := some steps } =
      ofSource source limits := fun _ => rfl
  simp only [evaluate, hprogram] at hok ⊢
  cases hsource : ofSource source limits with
  | error cause => rfl
  | ok p =>
      rw [hsource] at hok
      exact congrArg Run.result (State.run_eq_of_le hkm hok)

end Program

/-- Budgets are exact, and a run under a small one is resumed under a large one.  A run
does what single steps do, a halted machine needs none, the limit is reported only where
the steps are used up, and a result under the small budget holds under the large one. -/
theorem State.run_resumes {Log : Type} (note : Log → Event → Log) (s : State) (log : Log)
    {k m : Nat} (hkm : k ≤ m) :
    ((∃ t events result, s.StepsTo m t events result) ∧
      ∀ t events result, s.StepsTo m t events result →
        s.run note m log = ⟨t, events.foldl note log, result⟩) ∧
    ((∀ fault, (s.run note k log).result ≠ .error (.fault fault)) →
      (s.run note k log).state.run note m (s.run note k log).log = s.run note m log) ∧
    (s.halted = true → s.run note m log = ⟨s, log, .ok (s.machine.get .eax)⟩) ∧
    ((s.run note m log).result =
        .error (.stepLimit (s.run note m log).state.machine.ip m) ↔
      (s.run note m log).state.halted = false ∧ m ≤ (s.run note m log).state.steps ∧
        ∃ events, s.Advances m events (s.run note m log).state) ∧
    (∀ ip limit, (s.run note m log).result = .error (.stepLimit ip limit) →
      ip = (s.run note m log).state.machine.ip ∧ limit = m ∧
        (s.run note m log).state.steps = max s.steps m) ∧
    ∀ (source : String) (limits : Limits),
      (∀ ip limit, Program.evaluate source { limits with maxSteps := some k } ≠
        .error (.stepLimit ip limit)) →
      Program.evaluate source { limits with maxSteps := some m } =
        Program.evaluate source { limits with maxSteps := some k } :=
  ⟨⟨exists_stepsTo m s, fun _ _ _ => StepsTo.run_eq⟩, run_run hkm, run_of_halted,
    result_run_eq_stepLimit_iff, fun _ _ => eq_of_result_run_eq_stepLimit,
    fun _ _ => Program.evaluate_eq_of_le hkm⟩

/-- An endless loop goes on from its third step to its tenth. -/
theorem State.run_resumes_loop :
    ((State.start (.loaded 4 [2, 0])).runSilently 3).state.runSilently 10 =
      (State.start (.loaded 4 [2, 0])).runSilently 10 := by
  have hlimit : ((State.start (.loaded 4 [2, 0])).runSilently 3).result =
      .error (.stepLimit 0 3) := by decide
  apply (State.run_resumes (fun _ _ => ()) (.start (.loaded 4 [2, 0])) ()
    (show 3 ≤ 10 by decide)).2.1
  intro fault hfault
  rw [runSilently] at hlimit
  rw [hlimit] at hfault
  cases hfault

end WordMachine
