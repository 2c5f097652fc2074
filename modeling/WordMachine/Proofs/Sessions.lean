import Mathlib
import WordMachine.Debugger
import WordMachine.Proofs.Budgets
import WordMachine.Proofs.Disassembly

/-!
# Debugging sessions go like runs

A session takes the steps of a run and shows their events.  What is typed decides only
where it asks how far to go.  So it is compared with a session in which no question is
put, and that one with the steps that a run takes.
-/

namespace WordMachine

namespace Debugger

def Shown.event? : Shown → Option Event
  | logged e => some e
  | _ => none

def Shown.summary? : Shown → Option (Nat × Word)
  | summary steps eax => some (steps, eax)
  | _ => none

namespace Session

def events (session : Session) : List Event := session.shown.filterMap Shown.event?

/-- The step counts and results that a session reports. -/
def summaries (session : Session) : List (Nat × Word) :=
  session.shown.filterMap Shown.summary?

def withoutPrompts (session : Session) : Session :=
  { session with shown := session.shown.filter (· ≠ .prompt) }

theorem filterMap_withoutPrompts {A : Type} {f : Shown → Option A} (hf : f .prompt = none)
    (session : Session) :
    session.withoutPrompts.shown.filterMap f = session.shown.filterMap f := by
  rw [withoutPrompts, List.filterMap_filter]
  congr 1
  funext shown
  by_cases hprompt : shown = .prompt
  · simp [hprompt, hf]
  · simp [hprompt]

theorem events_withoutPrompts (session : Session) :
    session.withoutPrompts.events = session.events :=
  filterMap_withoutPrompts rfl session

theorem summaries_withoutPrompts (session : Session) :
    session.withoutPrompts.summaries = session.summaries :=
  filterMap_withoutPrompts rfl session

theorem withoutPrompts_after (earlier : List Shown) (session : Session) :
    (session.after earlier).withoutPrompts =
      session.withoutPrompts.after (earlier.filter (· ≠ .prompt)) := by
  rw [withoutPrompts, after, List.filter_append]
  rfl

end Session

/-- Where the typed text has ended every question is answered. -/
theorem exists_steps_ask (lines : List (List Char)) :
    ∃ steps, (ask true lines).steps = some steps := by
  induction lines with
  | nil => exact ⟨1, rfl⟩
  | cons line rest ih =>
      rw [ask]
      cases stepsAsked line with
      | some steps => exact ⟨steps, rfl⟩
      | none => exact ih

theorem Typed.exists_steps_answer {typed : Typed} (hended : typed.ended = true) (pending : Nat) :
    ∃ steps, (typed.answer pending).steps = some steps := by
  rw [Typed.answer]
  split
  · rw [hended]
    exact exists_steps_ask typed.lines
  · exact ⟨pending, rfl⟩

theorem Typed.steps_answer_ne_none {typed : Typed} (hended : typed.ended = true)
    (pending : Nat) : (typed.answer pending).steps ≠ none := by
  obtain ⟨steps, hsteps⟩ := typed.exists_steps_answer hended pending
  rw [hsteps]
  exact Option.some_ne_none steps

/-- Whoever answers asks for a step. -/
theorem pos_of_stepsAsked {line : List Char} {steps : Nat} (h : stepsAsked line = some steps) :
    0 < steps := by
  rw [stepsAsked] at h
  split at h
  · cases h
    exact Nat.one_pos
  · obtain ⟨n, -, rfl⟩ := Option.map_eq_some_iff.mp h
    exact Nat.le_max_right _ _

theorem pos_of_ask {ended : Bool} {lines : List (List Char)} {steps : Nat}
    (h : (ask ended lines).steps = some steps) : 0 < steps := by
  induction lines with
  | nil =>
      obtain ⟨-, h⟩ := Option.ite_none_right_eq_some.mp h
      cases h
      exact Nat.one_pos
  | cons line rest ih =>
      rw [ask] at h
      split at h
      · next asked hasked =>
        cases h
        exact pos_of_stepsAsked hasked
      · exact ih h

theorem Typed.pos_of_answer {typed : Typed} {pending steps : Nat}
    (h : (typed.answer pending).steps = some steps) : 0 < steps := by
  rw [Typed.answer] at h
  split at h
  · exact pos_of_ask h
  · next hpending =>
    cases h
    exact Nat.pos_of_ne_zero hpending

/-- What has been typed, without the lines that are read where some steps are pending. -/
def Typed.left (typed : Typed) (pending : Nat) : Typed :=
  { typed with lines := (typed.answer pending).rest }

/-- What a session shows in a turn before it takes a step. -/
def asked (rows : List Row) (s : State) (prompts : Nat) : List Shown :=
  .frame (.ofState rows s) :: List.replicate prompts .prompt

variable {rows : List Row} {limit steps pending : Nat} {s t : State} {typed : Typed}

theorem sessionFor_of_halted (hhalted : s.halted = true) (budget pending : Nat) (typed : Typed) :
    sessionFor rows limit budget s pending typed =
      ⟨[.summary s.steps (s.machine.get .eax)], .finished⟩ := by
  cases budget <;> rw [sessionFor, if_pos hhalted] <;> rfl

theorem sessionFor_of_waiting (hrunning : s.halted = false)
    (hsteps : (typed.answer pending).steps = none) (budget : Nat) :
    sessionFor rows limit budget s pending typed =
      ⟨asked rows s (typed.answer pending).prompts, .waiting⟩ := by
  cases budget <;> simp [sessionFor, hrunning, hsteps, asked]

theorem sessionFor_of_spent (hrunning : s.halted = false)
    (hsteps : (typed.answer pending).steps = some steps) :
    sessionFor rows limit 0 s pending typed =
      ⟨asked rows s (typed.answer pending).prompts, .failed (s.outOfSteps limit)⟩ := by
  simp [sessionFor, hrunning, hsteps, asked]

theorem sessionFor_of_fault (hrunning : s.halted = false)
    (hsteps : (typed.answer pending).steps = some steps) {fault : Fault}
    (hfault : s.step.fault = some fault) (budget : Nat) :
    sessionFor rows limit (budget + 1) s pending typed =
      ⟨asked rows s (typed.answer pending).prompts ++ s.step.events.map .logged,
        .failed (.fault fault)⟩ := by
  rw [sessionFor, if_neg (by simp [hrunning])]
  simp only [hsteps, hfault]
  rfl

theorem sessionFor_of_step (hrunning : s.halted = false)
    (hsteps : (typed.answer pending).steps = some steps) (hok : s.step.fault = none)
    (budget : Nat) :
    sessionFor rows limit (budget + 1) s pending typed =
      (sessionFor rows limit budget s.next (steps - 1) (typed.left pending)).after
        (asked rows s (typed.answer pending).prompts ++ s.step.events.map .logged) := by
  rw [sessionFor, if_neg (by simp [hrunning])]
  simp only [hsteps, hok]
  rfl

/-- A session has ended, waits, has no steps left, fails in a step, or goes on after one. -/
theorem sessionFor_induction {motive : Nat → State → Nat → Typed → Session → Prop}
    (halted : ∀ budget s pending typed, s.halted = true → motive budget s pending typed
      ⟨[.summary s.steps (s.machine.get .eax)], .finished⟩)
    (waiting : ∀ budget s pending typed, s.halted = false →
      (typed.answer pending).steps = none → motive budget s pending typed
        ⟨asked rows s (typed.answer pending).prompts, .waiting⟩)
    (spent : ∀ s pending typed, s.halted = false → (typed.answer pending).steps ≠ none →
      motive 0 s pending typed
        ⟨asked rows s (typed.answer pending).prompts, .failed (s.outOfSteps limit)⟩)
    (faulted : ∀ budget s pending typed fault, s.halted = false →
      (typed.answer pending).steps ≠ none → s.step.fault = some fault →
      motive (budget + 1) s pending typed
        ⟨asked rows s (typed.answer pending).prompts ++ s.step.events.map .logged,
          .failed (.fault fault)⟩)
    (stepped : ∀ budget s pending typed steps session, s.halted = false →
      (typed.answer pending).steps = some steps → s.step.fault = none →
      motive budget s.next (steps - 1) (typed.left pending) session →
      motive (budget + 1) s pending typed (session.after
        (asked rows s (typed.answer pending).prompts ++ s.step.events.map .logged)))
    (budget : Nat) (s : State) (pending : Nat) (typed : Typed) :
    motive budget s pending typed (sessionFor rows limit budget s pending typed) := by
  induction budget using Nat.strong_induction_on generalizing s pending typed with
  | _ budget ih =>
      cases hhalted : s.halted with
      | true =>
          rw [sessionFor_of_halted hhalted]
          exact halted budget s pending typed hhalted
      | false =>
          cases hsteps : (typed.answer pending).steps with
          | none =>
              rw [sessionFor_of_waiting hhalted hsteps]
              exact waiting budget s pending typed hhalted hsteps
          | some steps =>
              have hanswered : (typed.answer pending).steps ≠ none := by simp [hsteps]
              cases budget with
              | zero =>
                  rw [sessionFor_of_spent hhalted hsteps]
                  exact spent s pending typed hhalted hanswered
              | succ budget =>
                  cases hstep : s.step.fault with
                  | some fault =>
                      rw [sessionFor_of_fault hhalted hsteps hstep]
                      exact faulted budget s pending typed fault hhalted hanswered hstep
                  | none =>
                      rw [sessionFor_of_step hhalted hsteps hstep]
                      exact stepped budget s pending typed steps _ hhalted hsteps hstep
                        (ih budget (Nat.lt_succ_self budget) _ _ _)

/-! ## Sessions without questions -/

def unasked (rows : List Row) (limit : Nat) : Nat → State → Session
  | remaining, s =>
    if s.halted then
      ⟨[.summary s.steps (s.machine.get .eax)], .finished⟩
    else
      match remaining with
      | 0 => ⟨[.frame (Frame.ofState rows s)], .failed (.stepLimit s.machine.ip limit)⟩
      | remaining + 1 =>
        let shown := .frame (Frame.ofState rows s) :: s.step.events.map .logged
        match s.step.fault with
        | some fault => ⟨shown, .failed (.fault fault)⟩
        | none => (unasked rows limit remaining s.next).after shown

variable {events : List Event} {result : Except Error Word}

theorem filter_asked (rows : List Row) (s : State) (prompts : Nat) :
    (asked rows s prompts).filter (· ≠ .prompt) = [.frame (.ofState rows s)] := by
  simp [asked]

theorem filter_asked_append (rows : List Row) (s : State) (prompts : Nat)
    (events : List Event) :
    (asked rows s prompts ++ events.map Shown.logged).filter (· ≠ .prompt) =
      .frame (.ofState rows s) :: events.map .logged := by
  have hlogged : (events.map Shown.logged).filter (· ≠ Shown.prompt) =
      events.map Shown.logged := by
    rw [List.filter_eq_self]
    simp
  rw [List.filter_append, hlogged, filter_asked]
  rfl

theorem unasked_of_halted (hhalted : s.halted = true) (remaining : Nat) :
    unasked rows limit remaining s =
      ⟨[.summary s.steps (s.machine.get .eax)], .finished⟩ := by
  cases remaining <;> rw [unasked, if_pos hhalted]

/-- What is typed has no effect but on the questions. -/
theorem withoutPrompts_sessionFor (hended : typed.ended = true) (remaining : Nat) (s : State)
    (pending : Nat) :
    (sessionFor rows limit remaining s pending typed).withoutPrompts =
      unasked rows limit remaining s := by
  revert hended
  refine sessionFor_induction (motive := fun remaining s _ typed session =>
    typed.ended = true → session.withoutPrompts = unasked rows limit remaining s)
    ?halted ?waiting ?spent ?faulted ?stepped remaining s pending typed
  case halted =>
    intro remaining s _ _ hhalted _
    rw [unasked_of_halted hhalted]
    rfl
  case waiting =>
    intro _ _ pending _ _ hsteps hended
    exact absurd hsteps (Typed.steps_answer_ne_none hended pending)
  case spent =>
    intro s _ _ hhalted _ _
    rw [unasked, if_neg (by simp [hhalted]), Session.withoutPrompts, filter_asked]
    rfl
  case faulted =>
    intro _ s _ _ fault hhalted _ hstep _
    rw [unasked, if_neg (by simp [hhalted]), hstep, Session.withoutPrompts, filter_asked_append]
  case stepped =>
    intro _ s _ _ _ session hhalted _ hstep ih hended
    rw [unasked, if_neg (by simp [hhalted]), hstep, Session.withoutPrompts_after,
      filter_asked_append, ih hended]

theorem filterMap_logged {A : Type} (f : Shown → Option A) (frame : Frame)
    (hframe : f (.frame frame) = none) (events : List Event) :
    (Shown.frame frame :: events.map Shown.logged).filterMap f =
      events.filterMap fun e => f (.logged e) := by
  rw [List.filterMap_cons_none hframe, List.filterMap_map]
  rfl

theorem unasked_of_step (hrunning : s.halted = false) (hleft : s.steps < limit)
    (hok : s.step.fault = none) :
    unasked rows limit (limit - s.steps) s =
      (unasked rows limit (limit - s.next.steps) s.next).after
        (.frame (Frame.ofState rows s) :: s.step.events.map .logged) := by
  have hsteps : s.next.steps = s.steps + 1 := State.steps_step hrunning hok
  have hsucc : limit - s.steps = limit - s.next.steps + 1 := by omega
  rw [hsucc, unasked, if_neg (by simp [hrunning])]
  simp only [hok]

/-- Steps that succeed are shown with their events. -/
theorem unasked_of_advances (rows : List Row) (h : s.Advances limit events t) :
    ∃ shown, unasked rows limit (limit - s.steps) s =
        (unasked rows limit (limit - t.steps) t).after shown ∧
      shown.filterMap Shown.event? = events ∧ shown.filterMap Shown.summary? = [] := by
  induction h with
  | refl s => exact ⟨[], rfl, rfl, rfl⟩
  | @step s t events hrunning hleft hok _ ih =>
      obtain ⟨shown, hsession, hevents, hsummaries⟩ := ih
      refine ⟨.frame (Frame.ofState rows s) :: s.step.events.map .logged ++ shown, ?_, ?_, ?_⟩
      · rw [unasked_of_step hrunning hleft hok, hsession, Session.after, Session.after,
          Session.after, List.append_assoc]
      · rw [List.filterMap_append, hevents, filterMap_logged _ _ rfl]
        simp [Shown.event?]
      · rw [List.filterMap_append, hsummaries, filterMap_logged _ _ rfl]
        simp [Shown.summary?]

def Ending.ofResult : Except Error Word → Ending
  | .ok _ => .finished
  | .error cause => .failed cause

/-- A session logs the given events, ends with the given result and reports it with the
number of steps if it is a word. -/
structure Session.Shows (session : Session) (events : List Event) (t : State)
    (result : Except Error Word) : Prop where
  events_eq : session.events = events
  ending_eq : session.ending = .ofResult result
  summaries_eq : session.summaries = result.toOption.toList.map fun eax => (t.steps, eax)

theorem Session.Shows.after {session : Session} {front back : List Event}
    (h : session.Shows back t result) {shown : List Shown}
    (hevents : shown.filterMap Shown.event? = front)
    (hsummaries : shown.filterMap Shown.summary? = []) :
    (session.after shown).Shows (front ++ back) t result where
  events_eq := by
    rw [Session.events, Session.after, List.filterMap_append, hevents, ← h.events_eq,
      Session.events]
  ending_eq := h.ending_eq
  summaries_eq := by
    rw [Session.summaries, Session.after, List.filterMap_append, hsummaries, List.nil_append,
      ← h.summaries_eq, Session.summaries]

theorem Session.Shows.of_withoutPrompts {session : Session}
    (h : session.withoutPrompts.Shows events t result) : session.Shows events t result where
  events_eq := by
    rw [← Session.events_withoutPrompts, h.events_eq]
  ending_eq := h.ending_eq
  summaries_eq := by
    rw [← Session.summaries_withoutPrompts, h.summaries_eq]

/-- A session ends as the run does. -/
theorem shows_of_ends (rows : List Row) (h : s.Ends limit t events result) :
    (unasked rows limit (limit - s.steps) s).Shows events t result := by
  cases h with
  | halted hhalted =>
      rw [unasked_of_halted hhalted]
      exact ⟨rfl, rfl, rfl⟩
  | spent hrunning hspent =>
      rw [Nat.sub_eq_zero_of_le hspent, unasked, if_neg (by simp [hrunning])]
      exact ⟨rfl, rfl, rfl⟩
  | faulted hrunning hleft hfault =>
      have hsucc : limit - s.steps = limit - s.steps - 1 + 1 := by omega
      rw [hsucc, unasked, if_neg (by simp [hrunning])]
      simp only [hfault]
      refine ⟨?_, rfl, ?_⟩
      · rw [Session.events, filterMap_logged _ _ rfl]
        simp [Shown.event?]
      · rw [Session.summaries, filterMap_logged _ _ rfl]
        simp [Shown.summary?, Except.toOption]

/-- A session on a text that has ended shows the steps of a run. -/
theorem shows_of_stepsTo {program : Program} {limits : Limits} (rows : List Row)
    (typed : String)
    (h : (State.start program.machine).StepsTo limits.stepLimit t events result) :
    (session program limits rows (.ofText typed)).Shows events t result := by
  obtain ⟨last, front, back, hfront, hback, rfl⟩ := h
  obtain ⟨shown, hunasked, hevents, hsummaries⟩ := unasked_of_advances rows hfront
  have hshows := (shows_of_ends rows hback).after hevents hsummaries
  rw [← hunasked] at hshows
  apply Session.Shows.of_withoutPrompts
  rw [session, withoutPrompts_sessionFor rfl]
  exact hshows

/-- A session that has finished shows its summary last. -/
theorem exists_summary_of_finished {budget pending : Nat}
    (h : (sessionFor rows limit budget s pending typed).ending = .finished) :
    ∃ front steps eax, (sessionFor rows limit budget s pending typed).shown =
      front ++ [.summary steps eax] := by
  revert h
  refine sessionFor_induction (motive := fun _ _ _ _ session => session.ending = .finished →
    ∃ front steps eax, session.shown = front ++ [.summary steps eax])
    ?halted ?waiting ?spent ?faulted ?stepped budget s pending typed
  case halted => exact fun _ _ _ _ _ _ => ⟨[], _, _, rfl⟩
  case waiting => exact fun _ _ _ _ _ _ h => Ending.noConfusion h
  case spent => exact fun _ _ _ _ _ h => Ending.noConfusion h
  case faulted => exact fun _ _ _ _ _ _ _ _ h => Ending.noConfusion h
  case stepped =>
    intro _ s pending typed _ session _ _ _ ih h
    obtain ⟨front, steps, eax, hshown⟩ := ih h
    refine ⟨asked rows s (typed.answer pending).prompts ++ s.step.events.map .logged ++ front,
      steps, eax, ?_⟩
    rw [Session.after, hshown, List.append_assoc _ front]

/-- A session of a run that halts ends with the numbers of the run. -/
theorem exists_shown_eq_concat_summary {program : Program} {limits : Limits} {eax : Word}
    (rows : List Row) (typed : String)
    (h : (State.start program.machine).StepsTo limits.stepLimit t events (.ok eax)) :
    ∃ front, (session program limits rows (.ofText typed)).shown =
      front ++ [.summary t.steps eax] := by
  have hshows := shows_of_stepsTo rows typed h
  obtain ⟨front, steps, eax', hshown⟩ := exists_summary_of_finished hshows.ending_eq
  have hsummaries := congrArg List.getLast? hshows.summaries_eq
  rw [Session.summaries, session, hshown, List.filterMap_append] at hsummaries
  obtain ⟨rfl, rfl⟩ : steps = t.steps ∧ eax' = eax := by
    simpa [Shown.summary?, Except.toOption] using hsummaries
  exact ⟨front, hshown⟩

end Debugger

end WordMachine
