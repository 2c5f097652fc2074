import Mathlib
import WordMachine.Proofs.Budgets

/-!
# Calls

A machine is asked for single steps and for runs under a limit, in any order.  Whatever is
asked, and however it ends, the machine takes single steps in a row, and the log holds their
lines.  A machine that has halted takes none that changes anything.
-/

namespace WordMachine

inductive Call where
  | step
  | run (limit : Nat)
  deriving DecidableEq, Repr

/-- A state and the lines that were logged on the way to it. -/
structure Transcript where
  state : State
  lines : List String
  deriving DecidableEq, Repr

namespace Transcript

def note (lines : List String) (e : Event) : List String := lines ++ [e.text]

def call (t : Transcript) : Call → Transcript
  | .step => ⟨t.state.step.state, t.state.step.events.foldl note t.lines⟩
  | .run limit =>
    let run := t.state.run note limit t.lines
    ⟨run.state, run.log⟩

def calls (t : Transcript) (calls : List Call) : Transcript := calls.foldl call t

end Transcript

namespace State

variable {limit m n : Nat} {s t : State} {events : List Event} {result : Except Error Word}

/-- The events of a number of single steps.  They may fail or find the machine halted. -/
def eventsFor (n : Nat) (s : State) : List Event :=
  (List.range n).flatMap fun i => (next^[i] s).step.events

theorem eventsFor_succ (n : Nat) (s : State) :
    s.eventsFor (n + 1) = s.step.events ++ s.next.eventsFor n := by
  simp only [eventsFor, List.range_succ_eq_map, List.flatMap_cons, List.flatMap_map,
    Function.iterate_succ_apply]
  rfl

/-- Steps in a row log what their parts log. -/
theorem eventsFor_add (m n : Nat) (s : State) :
    s.eventsFor (m + n) = s.eventsFor m ++ (next^[m] s).eventsFor n := by
  induction m generalizing s with
  | zero =>
      rw [Nat.zero_add]
      rfl
  | succ m ih =>
      rw [Nat.add_right_comm, eventsFor_succ, eventsFor_succ, ih, List.append_assoc,
        Function.iterate_succ_apply]

/-- The first state leads to the second by a number of single steps with the given events. -/
def Reaches (s : State) (events : List Event) (t : State) : Prop :=
  ∃ n, t = next^[n] s ∧ events = s.eventsFor n

theorem Reaches.refl (s : State) : s.Reaches [] s := ⟨0, rfl, rfl⟩

theorem Reaches.single (s : State) : s.Reaches s.step.events s.next := by
  refine ⟨1, rfl, ?_⟩
  rw [eventsFor_succ]
  exact (List.append_nil _).symm

theorem Reaches.trans {u : State} {front back : List Event} (h : s.Reaches front t)
    (h' : t.Reaches back u) : s.Reaches (front ++ back) u := by
  obtain ⟨m, rfl, rfl⟩ := h
  obtain ⟨n, rfl, rfl⟩ := h'
  refine ⟨m + n, ?_, (eventsFor_add m n s).symm⟩
  rw [Nat.add_comm, Function.iterate_add_apply]

theorem Advances.reaches (h : s.Advances limit events t) : s.Reaches events t := by
  induction h with
  | refl s => exact .refl s
  | step _ _ _ _ ih => exact (Reaches.single _).trans ih

theorem Ends.reaches (h : s.Ends limit t events result) : s.Reaches events t := by
  cases h with
  | halted | spent => exact .refl s
  | faulted => exact .single s

/-- A run is a number of single steps. -/
theorem StepsTo.reaches (h : s.StepsTo limit t events result) : s.Reaches events t := by
  obtain ⟨last, front, back, hfront, hback, rfl⟩ := h
  exact hfront.reaches.trans hback.reaches

end State

namespace Transcript

variable {t : Transcript}

theorem foldl_note (lines : List String) (events : List Event) :
    events.foldl note lines = lines ++ events.map Event.text := by
  induction events generalizing lines with
  | nil => exact (List.append_nil lines).symm
  | cons e rest ih =>
      rw [List.foldl_cons, ih, note, List.append_assoc]
      rfl

/-- A call is a number of single steps whose lines are logged. -/
theorem reaches_call (t : Transcript) (c : Call) :
    ∃ events, t.state.Reaches events (t.call c).state ∧
      (t.call c).lines = t.lines ++ events.map Event.text := by
  cases c with
  | step => exact ⟨_, .single t.state, foldl_note t.lines _⟩
  | run limit =>
      obtain ⟨last, events, result, hsteps⟩ := State.exists_stepsTo limit t.state
      have hrun : t.state.run note limit t.lines = ⟨last, events.foldl note t.lines, result⟩ :=
        hsteps.run_eq
      refine ⟨events, ?_, ?_⟩
      · rw [call, hrun]
        exact hsteps.reaches
      · rw [call, hrun]
        exact foldl_note t.lines events

/-- Any calls take a machine along single steps, and the lines that they add are those of the
events on the way. -/
theorem reaches_calls (t : Transcript) (cs : List Call) :
    ∃ events, t.state.Reaches events (t.calls cs).state ∧
      (t.calls cs).lines = t.lines ++ events.map Event.text := by
  induction cs generalizing t with
  | nil => exact ⟨[], .refl t.state, (List.append_nil t.lines).symm⟩
  | cons c rest ih =>
      obtain ⟨front, hfront, hlines⟩ := t.reaches_call c
      obtain ⟨back, hback, hrest⟩ := ih (t.call c)
      refine ⟨front ++ back, hfront.trans hback, ?_⟩
      rw [List.map_append, ← List.append_assoc, ← hlines]
      exact hrest

/-- A machine that has halted stays as it is. -/
theorem state_call_of_halted (hhalted : t.state.halted = true) (c : Call) :
    (t.call c).state = t.state := by
  cases c with
  | step => rw [call, State.step_of_halted hhalted]
  | run limit => rw [call, State.run_of_halted hhalted]

/-- Nothing that a halted machine is asked for changes it. -/
theorem state_calls_of_halted (hhalted : t.state.halted = true) (cs : List Call) :
    (t.calls cs).state = t.state := by
  induction cs generalizing t with
  | nil => rfl
  | cons c rest ih =>
      have hcall := state_call_of_halted hhalted c
      have hrest : ((t.call c).calls rest).state = (t.call c).state :=
        ih ((congrArg State.halted hcall).trans hhalted)
      exact hrest.trans hcall

end Transcript

end WordMachine
