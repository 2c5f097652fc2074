import Mathlib
import WordMachine.Proofs.Printing

/-!
# Sessions print what runs print

A session of a program and a run of it are compared by their printed texts.  The lines of the
log are the same, and so are the numbers in the summary, whatever is typed.  What is typed
shows only in the prompts.
-/

namespace WordMachine

/-- A run of the program prints what the session logs and reports, and the session
reports what the program computes. -/
structure Debugger.Session.Follows (session : Session) (source : String) (limits : Limits) :
    Prop where
  printed : ∀ trace, (Report.ofRun source limits trace).output =
    (if trace then Report.traceText session.events else "") ++
      String.join (session.summaries.map fun (steps, eax) => Report.summaryText steps eax)
  values : session.summaries.map Prod.snd = (Program.evaluate source limits).toOption.toList

namespace Report

open Debugger

variable {source : String} {limits : Limits} {p : Program} {t : State}
variable {events : List Event} {result : Except Error Word}

theorem evaluate_of_stepsTo (hsource : Program.ofSource source limits = .ok p)
    (h : (State.start p.machine).StepsTo limits.stepLimit t events result) :
    Program.evaluate source limits = result := by
  simp only [Program.evaluate, hsource, State.runSilently]
  rw [h.run_eq]

/-- What a run prints: its trace, if it is traced, and its summary, if it succeeds. -/
theorem ofRun_of_stepsTo (hsource : Program.ofSource source limits = .ok p)
    (h : (State.start p.machine).StepsTo limits.stepLimit t events result) (trace : Bool) :
    ofRun source limits trace =
      ⟨(if trace then traceText events else "") ++
        String.join (result.toOption.toList.map (summaryText t.steps)), result⟩ := by
  simp only [ofRun, hsource]
  rw [h.run_eq]
  have htraced : traceText (events.foldl
      (fun (log : Array Event) e => if trace then log.push e else log) #[]).toList =
        if trace then traceText events else "" := by
    cases trace with
    | true => simp
    | false => simp; rfl
  simp only [htraced]
  cases result with
  | error cause => simp [Except.toOption]
  | ok eax => simp [Except.toOption]

theorem ofSession_of_stepsTo {rows : List Row} (typed : String)
    (hsource : Program.ofSource source limits = .ok p)
    (hrows : p.machine.listing = .ok rows)
    (h : (State.start p.machine).StepsTo limits.stepLimit t events result) :
    ofSession source limits typed =
      ⟨(session p limits rows (.ofText typed)).text p.labels, result.map fun _ => ()⟩ := by
  have hending := (shows_of_stepsTo rows typed h).ending_eq
  simp only [ofSession, hsource, hrows, hending]
  cases result <;> rfl

/-- What a run prints is read back as the lines of its log and its summary. -/
theorem ofText_ofRun (hsource : Program.ofSource source limits = .ok p)
    (h : (State.start p.machine).StepsTo limits.stepLimit t events result) (trace : Bool) :
    Printed.ofText (ofRun source limits trace).output =
      runParts trace events t.steps result ++ [.line ""] := by
  rw [ofRun_of_stepsTo hsource h, ← join_runParts]
  exact Printed.ofText_join fun part => isWhole_of_mem_runParts

/-- The lines of the log in the text of a traced run are those of its events. -/
theorem logged_ofRun (hsource : Program.ofSource source limits = .ok p)
    (h : (State.start p.machine).StepsTo limits.stepLimit t events result) :
    Printed.logged (ofRun source limits true).output = events.map Event.text := by
  have hevents : (events.map fun e => Printed.line e.text).filterMap Printed.logged? =
      events.map Event.text := by
    rw [List.filterMap_map, ← List.filterMap_eq_map]
    congr 1
    funext e
    exact e.line_text.2.1
  have hsummary : (result.toOption.toList.flatMap (summaryLines t.steps)).filterMap
      Printed.logged? = [] := by
    rw [List.filterMap_eq_nil_iff]
    intro part hpart
    obtain ⟨eax, -, hpart⟩ := List.mem_flatMap.mp hpart
    exact logged?_of_mem_summaryLines hpart
  rw [Printed.logged, ofText_ofRun hsource h, List.filterMap_append, runParts, if_pos rfl,
    List.filterMap_append, hevents, hsummary]
  simp [Printed.logged?, Printed.logMarks]

/-- A run that succeeds ends with its summary. -/
theorem endsRun_ofRun {eax : Word} (hsource : Program.ofSource source limits = .ok p)
    (h : (State.start p.machine).StepsTo limits.stepLimit t events (.ok eax)) (trace : Bool) :
    Printed.EndsRun (ofRun source limits trace).output t.steps eax := by
  rw [Printed.EndsRun, ofText_ofRun hsource h, runParts]
  refine ⟨(if trace then events.map fun e => Printed.line e.text else []) ++ [.line ""], ?_⟩
  simp [Except.toOption, summaryLines]

/-- A session prints what a run prints, whatever is typed.  It ends with the same result.  The
lines of the log in its text are those in the text of a traced run, in the same order, and its
summary has the numbers that a run prints.  The texts of two sessions differ only in the
prompts. -/
theorem ofSession_follows_ofRun (hsize : limits.memorySize < Word.modulus)
    (source typed : String) :
    (∀ trace, (ofSession source limits typed).result =
      (ofRun source limits trace).result.map fun _ => ()) ∧
    (∀ trace, (ofRun source limits trace).result = Program.evaluate source limits) ∧
    Printed.logged (ofSession source limits typed).output =
      Printed.logged (ofRun source limits true).output ∧
    (∀ eax, Program.evaluate source limits = .ok eax → ∃ steps,
      Printed.EndsSession (ofSession source limits typed).output steps eax ∧
        ∀ trace, Printed.EndsRun (ofRun source limits trace).output steps eax) ∧
    (∀ typed', Printed.withoutPrompts (ofSession source limits typed').output =
      Printed.withoutPrompts (ofSession source limits typed).output) ∧
    ∀ p, Program.ofSource source limits = .ok p →
      ∃ rows, p.machine.listing = .ok rows ∧
        (ofSession source limits typed).output =
          String.join ((session p limits rows (.ofText typed)).shown.map (Shown.text p.labels)) ∧
        Printed.ofText (ofSession source limits typed).output =
          (session p limits rows (.ofText typed)).shown.flatMap (Shown.printed p.labels) ++
            [.line ""] ∧
        Printed.logged (ofSession source limits typed).output =
          ((State.start p.machine).record limits.stepLimit).log.map Event.text ∧
        (session p limits rows (.ofText typed)).Follows source limits := by
  cases hsource : Program.ofSource source limits with
  | error cause =>
      simp only [ofSession, ofRun, Program.evaluate, hsource, refused]
      refine ⟨fun _ => rfl, fun _ => trivial, trivial, fun _ h => ?_, fun _ => trivial,
        fun _ h => ?_⟩
      · cases h
      · cases h
  | ok p =>
      obtain ⟨outline, -, hwf, hfits, rfl⟩ := Program.ofSource_eq_ok_iff.mp hsource
      obtain ⟨t, events, result, hsteps⟩ := State.exists_stepsTo limits.stepLimit
        (.start (outline.program limits).machine)
      have hrows := Outline.listing_program hfits hsize
      have hshows := shows_of_stepsTo (Row.listOf 0 outline.image) typed hsteps
      have hrun := ofRun_of_stepsTo hsource hsteps
      have hsession := fun typed => ofSession_of_stepsTo typed hsource hrows hsteps
      have hvalue := evaluate_of_stepsTo hsource hsteps
      refine ⟨fun trace => ?_, fun trace => ?_, ?_, fun eax heax => ⟨t.steps, ?_, fun trace => ?_⟩,
        fun typed' => ?_, fun p' hp => ?_⟩
      · rw [hsession, hrun]
      · rw [hrun, hvalue]
      · rw [hsession, Session.logged_text, hshows.events_eq, logged_ofRun hsource hsteps]
      · rw [hvalue] at heax
        subst heax
        obtain ⟨front, hshown⟩ := exists_shown_eq_concat_summary
          (Row.listOf 0 outline.image) typed hsteps
        rw [hsession]
        exact Session.endsSession_text hshown _
      · rw [hvalue] at heax
        subst heax
        exact endsRun_ofRun hsource hsteps trace
      · rw [hsession, hsession, Session.withoutPrompts_text, Session.withoutPrompts_text, session,
          session, withoutPrompts_sessionFor rfl, withoutPrompts_sessionFor rfl]
      · cases hp
        refine ⟨_, hrows, ?_, ?_, ?_, ?_⟩
        · rw [hsession, Session.text]
        · rw [hsession, Session.ofText_text]
        · rw [hsession, Session.logged_text, hshows.events_eq, hsteps.record_eq]
        · constructor
          · intro trace
            rw [hrun, hshows.events_eq, hshows.summaries_eq, List.map_map]
            rfl
          · rw [hshows.summaries_eq, List.map_map, hvalue]
            exact List.map_id _

/-- A session on the loop with a number, a blank line and a line that is no number ends with the
numbers of a run, and without its prompts it prints what a session on an empty text prints. -/
theorem ofSession_follows_ofRun_loop :
    ∃ steps,
      Printed.EndsSession (ofSession Source.loop { memorySize := 16, maxSteps := some 100 }
        "3\n\nsix\n").output steps 1 ∧
      Printed.EndsRun (ofRun Source.loop { memorySize := 16, maxSteps := some 100 } true).output
        steps 1 ∧
      Printed.logged (ofSession Source.loop { memorySize := 16, maxSteps := some 100 }
        "3\n\nsix\n").output =
          ((State.start (Outline.loop.program { memorySize := 16 }).machine).record 100).log.map
            Event.text ∧
      Printed.withoutPrompts (ofSession Source.loop { memorySize := 16, maxSteps := some 100 }
        "").output =
          Printed.withoutPrompts (ofSession Source.loop { memorySize := 16, maxSteps := some 100 }
            "3\n\nsix\n").output := by
  have hsize : Limits.memorySize { memorySize := 16, maxSteps := some 100 } < Word.modulus := by
    decide
  have hsource : Program.ofSource Source.loop { memorySize := 16, maxSteps := some 100 } =
      .ok (Outline.loop.program { memorySize := 16 }) := Outline.loop_ofSource
  have hvalue : Program.evaluate Source.loop { memorySize := 16, maxSteps := some 100 } =
      .ok 1 := by
    simp only [Program.evaluate, hsource]
    decide +kernel
  obtain ⟨-, -, -, hsummary, htyped, hprogram⟩ :=
    ofSession_follows_ofRun hsize Source.loop "3\n\nsix\n"
  obtain ⟨steps, hsession, hrun⟩ := hsummary 1 hvalue
  obtain ⟨-, -, -, -, hlogged, -⟩ := hprogram _ hsource
  exact ⟨steps, hsession, hrun true, hlogged, htyped ""⟩

end Report

end WordMachine
