import Mathlib
import WordMachine.Proofs.Printing

/-!
# Questions of a session

The typed lines fix beforehand where a session puts its questions.  An answer lets as many
steps go by as it says, and the lines refused on the way cost one question each.  So the
schedule is computed from the lines alone, and then a session is shown to keep to it, to stop
where a run stops, and to read no line that it has not asked for.
-/

namespace WordMachine

namespace Debugger

variable {line : List Char} {lines : List (List Char)} {steps pending read k : Nat}

/-- A typed line asks for one step if it is blank.  Otherwise it asks for as many as the number
that it is, and for one if that is zero. -/
inductive AsksFor (line : List Char) : Nat → Prop
  | blank (hblank : Text.trim line = []) : AsksFor line 1
  | number {text : String} (hnumeral : Word.IsNumeral text)
      (htext : Text.trim line = text.toList ∨ Text.trim line = '+' :: text.toList) :
      AsksFor line (max (Nat.ofDigitChars 10 text.toList 0) 1)

theorem stepsAsked_eq_some_iff : stepsAsked line = some steps ↔ AsksFor line steps := by
  rw [stepsAsked]
  split
  · next hblank =>
    constructor
    · intro h
      cases h
      exact .blank hblank
    · rintro (_ | ⟨hnumeral, htext⟩)
      · rfl
      · rw [hblank] at htext
        rcases htext with htext | htext
        · exact absurd (String.toList_eq_nil_iff.mp htext.symm) hnumeral.1
        · cases htext
  · next hne =>
    rw [Option.map_eq_some_iff]
    constructor
    · rintro ⟨w, hw, rfl⟩
      obtain ⟨text, hnumeral, htext, rfl⟩ := Word.ofTyped?_eq_some_iff.mp hw
      rw [Word.ofNumeral, Word.toNat_ofNat hnumeral.2.2]
      exact .number hnumeral htext
    · rintro (hblank | ⟨hnumeral, htext⟩)
      · exact absurd hblank hne
      · refine ⟨_, Word.ofTyped?_eq_some_iff.mpr ⟨_, hnumeral, htext, rfl⟩, ?_⟩
        rw [Word.ofNumeral, Word.toNat_ofNat hnumeral.2.2]

/-- The steps that the `i`-th answer asks for.  Where the lines have run out it is one. -/
def stepsOf (lines : List (List Char)) (i : Nat) : Nat :=
  (lines.filterMap stepsAsked)[i]?.getD 1

/-- The number of lines that are refused before the `i`-th answer. -/
def refusedBefore (lines : List (List Char)) (i : Nat) : Nat :=
  ((lines.splitOnP fun line => (stepsAsked line).isSome)[i]?.getD []).length

/-- The number of steps that the answers before the `i`-th one ask for. -/
def questionAt (lines : List (List Char)) (i : Nat) : Nat :=
  ∑ j ∈ Finset.range i, stepsOf lines j

/-- An answer to a question on the given lines.  Those that it leaves hold the other answers. -/
structure Answer.Answers (answer : Answer) (lines : List (List Char)) : Prop where
  steps_eq : answer.steps = some (stepsOf lines 0)
  prompts_eq : answer.prompts = refusedBefore lines 0 + 1
  stepsOf_rest : ∀ i, stepsOf answer.rest i = stepsOf lines (i + 1)
  refusedBefore_rest : ∀ i, refusedBefore answer.rest i = refusedBefore lines (i + 1)

theorem splitOnP_cons_of_some (h : stepsAsked line = some steps)
    (lines : List (List Char)) :
    (line :: lines).splitOnP (fun line => (stepsAsked line).isSome) =
      [] :: lines.splitOnP fun line => (stepsAsked line).isSome := by
  rw [List.splitOnP_cons_eq_if_modifyHead, if_pos (by rw [h, Option.isSome_some])]

/-- A line that is no answer is refused before the first one. -/
theorem exists_splitOnP_cons_of_none (h : stepsAsked line = none)
    (lines : List (List Char)) :
    ∃ refused later, lines.splitOnP (fun line => (stepsAsked line).isSome) = refused :: later ∧
      (line :: lines).splitOnP (fun line => (stepsAsked line).isSome) =
        (line :: refused) :: later := by
  obtain ⟨refused, later, hsplit⟩ := List.exists_cons_of_ne_nil
    (List.splitOnP_ne_nil (fun line => (stepsAsked line).isSome) lines)
  refine ⟨refused, later, hsplit, ?_⟩
  rw [List.splitOnP_cons_eq_if_modifyHead, if_neg (by simp [h]), hsplit, List.modifyHead_cons]

/-- Asking takes the first answer off the lines and leaves the others. -/
theorem answers_ask (lines : List (List Char)) : (ask true lines).Answers lines := by
  induction lines with
  | nil => exact ⟨rfl, rfl, fun _ => rfl, fun _ => by simp [ask, refusedBefore]⟩
  | cons line rest ih =>
      rw [ask]
      cases hasked : stepsAsked line with
      | some steps =>
          have hsteps := List.filterMap_cons_some hasked (l := rest)
          have hsplit := splitOnP_cons_of_some hasked rest
          refine ⟨?_, ?_, ?_, ?_⟩
          · rw [stepsOf, hsteps]
            rfl
          · rw [refusedBefore, hsplit]
            rfl
          · intro i
            rw [stepsOf, stepsOf, hsteps, List.getElem?_cons_succ]
          · intro i
            rw [refusedBefore, refusedBefore, hsplit, List.getElem?_cons_succ]
      | none =>
          have hsteps : ∀ i, stepsOf (line :: rest) i = stepsOf rest i := by
            intro i
            rw [stepsOf, List.filterMap_cons_none hasked, stepsOf]
          obtain ⟨refused, later, hrest, hsplit⟩ := exists_splitOnP_cons_of_none hasked rest
          refine ⟨?_, ?_, ?_, ?_⟩
          · rw [hsteps]
            exact ih.steps_eq
          · have hprompts := ih.prompts_eq
            rw [refusedBefore, hrest] at hprompts
            rw [refusedBefore, hsplit]
            exact congrArg (· + 1) hprompts
          · intro i
            rw [hsteps]
            exact ih.stepsOf_rest i
          · intro i
            have hrefused := ih.refusedBefore_rest i
            rw [refusedBefore, refusedBefore, hrest] at hrefused
            rw [refusedBefore, refusedBefore, hsplit]
            exact hrefused

theorem stepsOf_pos (lines : List (List Char)) (i : Nat) : 0 < stepsOf lines i := by
  rw [stepsOf]
  cases hasked : (lines.filterMap stepsAsked)[i]? with
  | none => exact Nat.one_pos
  | some steps =>
      obtain ⟨line, -, hline⟩ := List.mem_filterMap.mp (List.mem_of_getElem? hasked)
      exact pos_of_stepsAsked hline

/-- The questions after the first are those on the lines that its answer leaves. -/
theorem questionAt_succ (lines : List (List Char)) (i : Nat) :
    questionAt lines (i + 1) = stepsOf lines 0 + questionAt (ask true lines).rest i := by
  rw [questionAt, Finset.sum_range_succ', Nat.add_comm, questionAt]
  simp only [(answers_ask lines).stepsOf_rest]

/-! ## The schedule of the questions -/

/-- How often the question is put in each turn, from one where some steps are pending. -/
def Typed.promptsAt : Typed → Nat → Nat → Nat
  | typed, pending, 0 => (typed.answer pending).prompts
  | typed, pending, k + 1 =>
    promptsAt (typed.left pending) ((typed.answer pending).steps.getD 1 - 1) k

theorem Typed.promptsAt_pending_succ (typed : Typed) (pending k : Nat) :
    typed.promptsAt (pending + 1) (k + 1) = typed.promptsAt pending k := rfl

/-- No question is put while steps are pending. -/
theorem Typed.promptsAt_of_lt (typed : Typed) (h : k < pending) :
    typed.promptsAt pending k = 0 := by
  induction pending generalizing k with
  | zero => exact absurd h (Nat.not_lt_zero k)
  | succ pending ih =>
      cases k with
      | zero => rfl
      | succ k => exact ih (Nat.lt_of_succ_lt_succ h)

theorem Typed.promptsAt_add (typed : Typed) (pending k : Nat) :
    typed.promptsAt pending (pending + k) = typed.promptsAt 0 k := by
  induction pending with
  | zero => rw [Nat.zero_add]
  | succ pending ih => rw [Nat.add_right_comm, promptsAt_pending_succ, ih]

theorem Typed.promptsAt_ask (lines : List (List Char)) (k : Nat) :
    promptsAt ⟨lines, true⟩ 0 (k + 1) =
      promptsAt ⟨(ask true lines).rest, true⟩ (stepsOf lines 0 - 1) k := by
  rw [promptsAt, left, answer, if_pos rfl, (answers_ask lines).steps_eq]
  rfl

/-- An answer is good for as many turns as it has steps. -/
theorem Typed.promptsAt_stepsOf_add (lines : List (List Char)) (k : Nat) :
    promptsAt ⟨lines, true⟩ 0 (stepsOf lines 0 + k) =
      promptsAt ⟨(ask true lines).rest, true⟩ 0 k := by
  have hpos := stepsOf_pos lines 0
  have hsucc : stepsOf lines 0 + k = stepsOf lines 0 - 1 + k + 1 := by omega
  rw [hsucc, promptsAt_ask, promptsAt_add]

/-- A question is put where the answers before it have been used up. -/
theorem Typed.promptsAt_questionAt (lines : List (List Char)) (i : Nat) :
    promptsAt ⟨lines, true⟩ 0 (questionAt lines i) = refusedBefore lines i + 1 := by
  induction i generalizing lines with
  | zero => exact (answers_ask lines).prompts_eq
  | succ i ih =>
      rw [questionAt_succ, promptsAt_stepsOf_add, ih, (answers_ask lines).refusedBefore_rest]

/-- Nowhere else is a question put. -/
theorem Typed.promptsAt_eq_zero {lines : List (List Char)} (h : ∀ i, questionAt lines i ≠ k) :
    promptsAt ⟨lines, true⟩ 0 k = 0 := by
  -- The first answer is good for some turns, and behind them there are fewer left.
  induction k using Nat.strong_induction_on generalizing lines with
  | _ k ih =>
      have hpos := stepsOf_pos lines 0
      rcases Nat.lt_or_ge k (stepsOf lines 0) with hlt | hge
      · cases k with
        | zero => exact absurd rfl (h 0)
        | succ k =>
            rw [promptsAt_ask]
            exact promptsAt_of_lt _ (by omega)
      · obtain ⟨later, rfl⟩ := Nat.exists_eq_add_of_le hge
        rw [promptsAt_stepsOf_add]
        refine ih later (by omega) fun i hi => h (i + 1) ?_
        rw [questionAt_succ, hi]

/-! ## Turns in a row -/

variable {rows : List Row} {limit budget : Nat} {s : State} {typed : Typed}

def Shown.header? : Shown → Option Nat
  | frame shown => some shown.steps
  | _ => none

/-- What a session shows in its turns: a picture, questions and the events of a step. -/
def turn (rows : List Row) (budget : Nat) (s : State) (prompts : Nat → Nat) (k : Nat) :
    List Shown :=
  asked rows (State.next^[k] s) (prompts k) ++
    if k < budget then (State.next^[k] s).step.events.map .logged else []

/-- What a session shows behind its last turn. -/
def Ending.closing (t : State) : Ending → List Shown
  | finished => [.summary t.steps (t.machine.get .eax)]
  | _ => []

/-- How a session ends after a number of steps that have succeeded and a number of turns.
The last turn has no such step if the step fails or if there is none left to take. -/
inductive Stops (limit budget : Nat) (s : State) : Nat → Nat → Ending → Prop
  | halted {turns : Nat} (hhalted : (State.next^[turns] s).halted = true) :
      Stops limit budget s turns turns .finished
  | spent :
      Stops limit budget s budget (budget + 1)
        (.failed ((State.next^[budget] s).outOfSteps limit))
  | faulted {k : Nat} {fault : Fault} (hleft : k < budget)
      (hfault : (State.next^[k] s).step.fault = some fault) :
      Stops limit budget s k (k + 1) (.failed (.fault fault))

/-- A session of a number of turns, on the states that single steps lead to. -/
structure Session.Course (session : Session) (rows : List Row) (limit budget : Nat) (s : State)
    (prompts : Nat → Nat) (taken turns : Nat) : Prop where
  running : ∀ k < turns, (State.next^[k] s).halted = false
  stepped : ∀ k < taken, k < budget ∧ (State.next^[k] s).step.fault = none
  stops : Stops limit budget s taken turns session.ending
  shown_eq : session.shown =
    (List.range turns).flatMap (turn rows budget s prompts) ++
      session.ending.closing (State.next^[turns] s)

variable {taken turns : Nat} {ending : Ending} {prompts : Nat → Nat} {whole : Session}

theorem Stops.turns_le (h : Stops limit budget s taken turns ending) : turns ≤ taken + 1 := by
  cases h with
  | halted => exact Nat.le_succ _
  | spent | faulted => exact le_rfl

theorem Stops.succ (h : Stops limit budget s.next taken turns ending) :
    Stops limit (budget + 1) s (taken + 1) (turns + 1) ending := by
  cases h with
  | halted hhalted => exact .halted hhalted
  | spent => exact .spent
  | faulted hleft hfault => exact .faulted (Nat.succ_lt_succ hleft) hfault

theorem turn_zero_succ (rows : List Row) (budget : Nat) (s : State) (prompts : Nat → Nat) :
    turn rows (budget + 1) s prompts 0 =
      asked rows s (prompts 0) ++ s.step.events.map .logged := by
  rw [turn, if_pos (Nat.succ_pos budget)]
  rfl

/-- The turns behind the first are those of the state that its step leads to. -/
theorem flatMap_turn_succ (rows : List Row) (budget : Nat) (s : State) (prompts : Nat → Nat)
    (turns : Nat) :
    (List.range (turns + 1)).flatMap (turn rows (budget + 1) s prompts) =
      asked rows s (prompts 0) ++ s.step.events.map .logged ++
        (List.range turns).flatMap (turn rows budget s.next fun k => prompts (k + 1)) := by
  rw [List.range_succ_eq_map, List.flatMap_cons, List.flatMap_map, turn_zero_succ]
  congr 2
  funext k
  simp only [turn, Nat.succ_eq_add_one, Function.iterate_succ_apply, Nat.add_lt_add_iff_right]

theorem course_of_halted (hhalted : s.halted = true) :
    Session.Course ⟨[.summary s.steps (s.machine.get .eax)], .finished⟩ rows limit budget s
      prompts 0 0 where
  running k hk := absurd hk (Nat.not_lt_zero k)
  stepped k hk := absurd hk (Nat.not_lt_zero k)
  stops := .halted hhalted
  shown_eq := rfl

/-- A session that fails in its first turn. -/
theorem course_of_stops (rows : List Row) (prompts : Nat → Nat) {cause : Error}
    (hrunning : s.halted = false) (hstops : Stops limit budget s 0 1 (.failed cause)) :
    Session.Course ⟨turn rows budget s prompts 0, .failed cause⟩ rows limit budget s
      prompts 0 1 where
  running := by
    intro k hk
    rw [Nat.lt_one_iff.mp hk]
    exact hrunning
  stepped k hk := absurd hk (Nat.not_lt_zero k)
  stops := hstops
  shown_eq := by simp [Ending.closing]

theorem Session.Course.after (hrunning : s.halted = false) (hok : s.step.fault = none)
    (h : whole.Course rows limit budget s.next (fun k => prompts (k + 1)) taken turns) :
    (whole.after (asked rows s (prompts 0) ++ s.step.events.map .logged)).Course rows limit
      (budget + 1) s prompts (taken + 1) (turns + 1) where
  running := Nat.forall_lt_succ_left.mpr ⟨hrunning, h.running⟩
  stepped := by
    refine Nat.forall_lt_succ_left.mpr ⟨⟨Nat.succ_pos budget, hok⟩, fun k hk => ?_⟩
    obtain ⟨hlt, hfault⟩ := h.stepped k hk
    exact ⟨Nat.succ_lt_succ hlt, hfault⟩
  stops := h.stops.succ
  shown_eq := by
    rw [Session.after, h.shown_eq, flatMap_turn_succ, ← List.append_assoc]
    rfl

/-- A session keeps to the schedule and stops where single steps do. -/
theorem course_sessionFor (hended : typed.ended = true) (rows : List Row)
    (limit budget : Nat) (s : State) (pending : Nat) :
    ∃ taken turns, (sessionFor rows limit budget s pending typed).Course rows limit budget s
      (typed.promptsAt pending) taken turns := by
  revert hended
  refine sessionFor_induction (motive := fun budget s pending typed session =>
    typed.ended = true → ∃ taken turns, session.Course rows limit budget s
      (typed.promptsAt pending) taken turns)
    ?halted ?waiting ?spent ?faulted ?stepped budget s pending typed
  case halted =>
    intro _ _ _ _ hhalted _
    exact ⟨0, 0, course_of_halted hhalted⟩
  case waiting =>
    intro _ _ pending _ _ hsteps hended
    exact absurd hsteps (Typed.steps_answer_ne_none hended pending)
  case spent =>
    intro s pending typed hhalted _ _
    have hcourse := course_of_stops rows (typed.promptsAt pending) hhalted
      (.spent : Stops limit 0 s 0 1 (.failed (s.outOfSteps limit)))
    rw [turn, if_neg (Nat.lt_irrefl 0), List.append_nil] at hcourse
    exact ⟨0, 1, hcourse⟩
  case faulted =>
    intro budget s pending typed fault hhalted _ hstep _
    have hcourse := course_of_stops rows (typed.promptsAt pending) hhalted
      (.faulted (Nat.succ_pos budget) hstep :
        Stops limit (budget + 1) s 0 1 (.failed (.fault fault)))
    rw [turn_zero_succ] at hcourse
    exact ⟨0, 1, hcourse⟩
  case stepped =>
    intro budget s pending typed steps session hhalted hsteps hstep ih hended
    obtain ⟨taken, turns, hcourse⟩ := ih hended
    have hprompts : (typed.left pending).promptsAt (steps - 1) =
        fun k => typed.promptsAt pending (k + 1) := by
      funext k
      rw [Typed.promptsAt, hsteps, Option.getD_some]
    rw [hprompts] at hcourse
    exact ⟨taken + 1, turns + 1, hcourse.after hhalted hstep⟩

theorem Session.Course.steps_iterate
    (h : whole.Course rows limit budget s prompts taken turns) (hk : k < turns) :
    (State.next^[k] s).steps = s.steps + k := by
  induction k with
  | zero => rfl
  | succ k ih =>
      have hlt := Nat.lt_of_succ_lt hk
      have htaken : k < taken := by
        have hle := h.stops.turns_le
        omega
      have hnext : (State.next^[k] s).next.steps = (State.next^[k] s).steps + 1 :=
        State.steps_step (h.running k hlt) (h.stepped k htaken).2
      rw [Function.iterate_succ_apply', hnext, ih hlt, Nat.add_assoc]

theorem Session.Course.steps_eq
    (h : whole.Course rows limit budget s prompts taken turns) (hs : s.steps = 0)
    (hk : k < turns) : (State.next^[k] s).steps = k := by
  rw [h.steps_iterate hk, hs, Nat.zero_add]

theorem flatMap_turn {B : Type} {f : Shown → List B} (hlogged : ∀ e, f (.logged e) = [])
    (rows : List Row) (budget : Nat) (s : State) (prompts : Nat → Nat) (k : Nat) :
    (turn rows budget s prompts k).flatMap f =
      f (.frame (.ofState rows (State.next^[k] s))) ++
        (List.replicate (prompts k) (f .prompt)).flatten := by
  have hevents : (if k < budget then (State.next^[k] s).step.events.map Shown.logged
      else []).flatMap f = [] := by
    split
    · simp [hlogged]
    · rfl
  rw [turn, List.flatMap_append, hevents, List.append_nil, asked, List.flatMap_cons,
    List.flatMap_replicate]

/-- What is taken from the pictures and the questions of a session is taken turn by turn. -/
theorem Session.Course.flatMap_shown {B : Type} {f : Shown → List B}
    (h : whole.Course rows limit budget s prompts taken turns)
    (hlogged : ∀ e, f (.logged e) = []) (hsummary : ∀ steps eax, f (.summary steps eax) = []) :
    whole.shown.flatMap f = (List.range turns).flatMap fun k =>
      f (.frame (.ofState rows (State.next^[k] s))) ++
        (List.replicate (prompts k) (f .prompt)).flatten := by
  have hclosing : (whole.ending.closing (State.next^[turns] s)).flatMap f = [] := by
    cases whole.ending with
    | finished => simp [Ending.closing, hsummary]
    | failed cause | waiting => rfl
  rw [h.shown_eq, List.flatMap_append, hclosing, List.append_nil, List.flatMap_assoc]
  exact List.flatMap_congr fun k _ => flatMap_turn hlogged rows budget s prompts k

/-- What is taken from the pictures alone is taken once in each turn. -/
theorem Session.Course.filterMap_shown {B : Type} {g : Shown → Option B} {f : Frame → B}
    (h : whole.Course rows limit budget s prompts taken turns)
    (hframe : ∀ frame, g (.frame frame) = some (f frame)) (hprompt : g .prompt = none)
    (hlogged : ∀ e, g (.logged e) = none) (hsummary : ∀ steps eax, g (.summary steps eax) = none) :
    whole.shown.filterMap g =
      (List.range turns).map fun k => f (.ofState rows (State.next^[k] s)) := by
  rw [List.filterMap_eq_flatMap_toList, h.flatMap_shown (by simp [hlogged]) (by simp [hsummary])]
  simp only [hframe, hprompt, Option.toList_some, Option.toList_none, List.flatten_replicate_nil,
    List.append_nil]
  exact List.flatMap_pure_eq_map _ _

/-- The headers are the numbers of the turns. -/
theorem Session.Course.headers_eq
    (h : whole.Course rows limit budget s prompts taken turns) (hs : s.steps = 0) :
    whole.shown.filterMap Shown.header? = List.range turns := by
  rw [h.filterMap_shown (f := Frame.steps) (fun _ => rfl) rfl (fun _ => rfl) fun _ _ => rfl]
  exact (List.map_congr_left fun k hk => h.steps_eq hs (List.mem_range.mp hk)).trans (List.map_id _)

/-- In the text of a session the prompts stand behind the headers of their turns. -/
theorem Session.Course.marks_text
    (h : whole.Course rows limit budget s prompts taken turns) (hs : s.steps = 0)
    (labels : SymbolTable) :
    Printed.marks (whole.text labels) = (List.range turns).flatMap fun k =>
      .line ("--- ins #" ++ k.repr ++ " ---") :: List.replicate (prompts k) .prompt := by
  rw [Session.marks_text, h.flatMap_shown (fun _ => rfl) fun _ _ => rfl]
  apply List.flatMap_congr
  intro k hk
  have hsteps : (Frame.ofState rows (State.next^[k] s)).steps = k :=
    h.steps_eq hs (List.mem_range.mp hk)
  have hprompts : (List.replicate (prompts k) (Shown.marks .prompt)).flatten =
      List.replicate (prompts k) .prompt := List.flatten_replicate_singleton
  rw [hprompts, Shown.marks, hsteps]
  rfl

theorem eq_range_of_prefix {numbers : List Nat} {n : Nat} (h : numbers <+: List.range n) :
    numbers = List.range numbers.length := by
  have hle := h.length_le
  rw [List.length_range] at hle
  rw [List.prefix_iff_eq_take, List.take_range, min_eq_left hle] at h
  exact h

/-! ## Lines that are read -/

theorem rest_ask (ended : Bool) (lines : List (List Char)) :
    (ask ended lines).rest = lines.drop (ask ended lines).prompts := by
  induction lines with
  | nil => rfl
  | cons line rest ih =>
      rw [ask]
      cases stepsAsked line with
      | some steps => rfl
      | none => exact ih

/-- A question that the typed lines answer is answered as on the whole text. -/
theorem ask_take_of_le (hread : read ≤ lines.length) (hle : (ask true lines).prompts ≤ read) :
    ask false (lines.take read) =
      ⟨(ask true lines).prompts, (ask true lines).steps,
        (ask true lines).rest.take (read - (ask true lines).prompts)⟩ := by
  induction lines generalizing read with
  | nil => exact absurd (hle.trans hread) (Nat.not_succ_le_zero 0)
  | cons line rest ih =>
      cases read with
      | zero =>
          rw [(answers_ask _).prompts_eq] at hle
          exact absurd hle (Nat.not_succ_le_zero _)
      | succ read =>
          rw [List.take_succ_cons, ask, ask]
          rw [ask] at hle
          split at hle
          · simp only [Nat.add_sub_cancel]
          · simp only [ih (Nat.le_of_succ_le_succ hread) (Nat.le_of_succ_le_succ hle),
              Nat.add_sub_add_right]

/-- Each other question is put once more than there are lines. -/
theorem ask_take_of_lt (hread : read ≤ lines.length) (hlt : read < (ask true lines).prompts) :
    ask false (lines.take read) = ⟨read + 1, none, []⟩ := by
  induction lines generalizing read with
  | nil =>
      obtain rfl := Nat.le_zero.mp hread
      rfl
  | cons line rest ih =>
      cases read with
      | zero => rfl
      | succ read =>
          rw [List.take_succ_cons, ask]
          rw [ask] at hlt
          split at hlt
          · exact absurd hlt (by simp)
          · simp only [ih (Nat.le_of_succ_le_succ hread) (Nat.lt_of_succ_lt_succ hlt)]

theorem Typed.answer_take_of_le (hread : read ≤ lines.length)
    (hle : (answer ⟨lines, true⟩ pending).prompts ≤ read) :
    answer ⟨lines.take read, false⟩ pending =
      ⟨(answer ⟨lines, true⟩ pending).prompts, (answer ⟨lines, true⟩ pending).steps,
        (answer ⟨lines, true⟩ pending).rest.take
          (read - (answer ⟨lines, true⟩ pending).prompts)⟩ := by
  cases pending with
  | zero => exact ask_take_of_le hread hle
  | succ pending => rfl

theorem Typed.answer_take_of_lt (hread : read ≤ lines.length)
    (hlt : read < (answer ⟨lines, true⟩ pending).prompts) :
    answer ⟨lines.take read, false⟩ pending = ⟨read + 1, none, []⟩ := by
  cases pending with
  | zero => exact ask_take_of_lt hread hlt
  | succ pending => exact absurd hlt (Nat.not_lt_zero read)

theorem Typed.le_length_rest (hread : read ≤ lines.length) (pending : Nat) :
    read - (answer ⟨lines, true⟩ pending).prompts ≤
      (answer ⟨lines, true⟩ pending).rest.length := by
  cases pending with
  | zero =>
      have hrest := congrArg List.length (rest_ask true lines)
      rw [List.length_drop] at hrest
      exact (Nat.sub_le_sub_right hread _).trans_eq hrest.symm
  | succ pending => exact hread

/-- A session that has been typed the first lines of a text.  It is the one on the whole
text, or it waits at the first question for which there is no line. -/
inductive Session.Reads (whole : Session) (read : Nat) : Session → Prop
  | whole (hread : whole.shown.count .prompt ≤ read) : whole.Reads read whole
  | waits {earlier : List Shown} (hcount : earlier.count .prompt = read)
      (hshown : earlier ++ [.prompt] <+: whole.shown) :
      whole.Reads read ⟨earlier ++ [.prompt], .waiting⟩

theorem Session.Reads.after {part : Session} {front : List Shown}
    (hfront : front.count .prompt ≤ read)
    (h : whole.Reads (read - front.count .prompt) part) :
    (whole.after front).Reads read (part.after front) := by
  cases h with
  | whole hread =>
      refine .whole ?_
      rw [Session.after, List.count_append]
      omega
  | @waits earlier hcount hshown =>
      rw [Session.after, Session.after, ← List.append_assoc]
      refine .waits ?_ ?_
      · rw [List.count_append]
        omega
      · rw [List.append_assoc]
        exact (List.prefix_append_right_inj front).mpr hshown

theorem count_asked (rows : List Row) (s : State) (prompts : Nat) :
    (asked rows s prompts).count .prompt = prompts := by
  rw [asked, List.count_cons_of_ne (by simp), List.count_replicate_self]

theorem count_asked_append (rows : List Row) (s : State) (prompts : Nat) (events : List Event) :
    (asked rows s prompts ++ events.map Shown.logged).count .prompt = prompts := by
  have hevents : (events.map Shown.logged).count .prompt = 0 := by
    rw [List.count_eq_zero]
    simp
  rw [List.count_append, hevents, count_asked, Nat.add_zero]

/-- A session begins with the questions of its first turn. -/
theorem asked_prefix_sessionFor (hrunning : s.halted = false) (rows : List Row)
    (limit budget pending : Nat) (typed : Typed) :
    asked rows s (typed.answer pending).prompts <+:
      (sessionFor rows limit budget s pending typed).shown := by
  cases hsteps : (typed.answer pending).steps with
  | none => rw [sessionFor_of_waiting hrunning hsteps]
  | some steps =>
      cases budget with
      | zero => rw [sessionFor_of_spent hrunning hsteps]
      | succ budget =>
          cases hstep : s.step.fault with
          | some fault =>
              rw [sessionFor_of_fault hrunning hsteps hstep]
              exact List.prefix_append _ _
          | none =>
              rw [sessionFor_of_step hrunning hsteps hstep, Session.after, List.append_assoc]
              exact List.prefix_append _ _

/-- Where a question needs more lines than have been typed, the session waits in it. -/
theorem reads_of_lt (hrunning : s.halted = false) (hread : read ≤ lines.length)
    (hlt : read < (Typed.answer ⟨lines, true⟩ pending).prompts) (rows : List Row)
    (limit budget : Nat) :
    (sessionFor rows limit budget s pending ⟨lines, true⟩).Reads read
      (sessionFor rows limit budget s pending ⟨lines.take read, false⟩) := by
  have hanswer := Typed.answer_take_of_lt hread hlt
  have hsucc : asked rows s (read + 1) = asked rows s read ++ [.prompt] := by
    rw [asked, asked, List.replicate_succ', List.cons_append]
  have hwhole := asked_prefix_sessionFor hrunning rows limit budget pending ⟨lines, true⟩
  obtain ⟨more, hprompts⟩ := Nat.exists_eq_add_of_le (Nat.succ_le_of_lt hlt)
  rw [hprompts, asked, List.replicate_add, ← List.cons_append, ← asked] at hwhole
  replace hwhole := (List.prefix_append _ _).trans hwhole
  have hsteps : (Typed.answer ⟨lines.take read, false⟩ pending).steps = none := by rw [hanswer]
  rw [sessionFor_of_waiting hrunning hsteps, hanswer]
  rw [hsucc] at hwhole ⊢
  exact .waits (count_asked rows s read) hwhole

/-- A session reads one line for each of its questions, and only the lines that it asks for. -/
theorem reads_sessionFor (hread : read ≤ lines.length) (rows : List Row) (limit budget : Nat)
    (s : State) (pending : Nat) :
    (sessionFor rows limit budget s pending ⟨lines, true⟩).Reads read
      (sessionFor rows limit budget s pending ⟨lines.take read, false⟩) := by
  induction budget using Nat.strong_induction_on generalizing lines read s pending with
  | _ budget ih =>
      cases hhalted : s.halted with
      | true =>
          rw [sessionFor_of_halted hhalted, sessionFor_of_halted hhalted]
          exact .whole (Nat.zero_le _)
      | false =>
          rcases Nat.lt_or_ge read (Typed.answer ⟨lines, true⟩ pending).prompts with hlt | hle
          · exact reads_of_lt hhalted hread hlt rows limit budget
          -- The lines answer the question, and so both sessions go on alike.
          obtain ⟨steps, hsteps⟩ := (Typed.mk lines true).exists_steps_answer rfl pending
          have hanswer := Typed.answer_take_of_le hread hle
          have hsteps' : (Typed.answer ⟨lines.take read, false⟩ pending).steps = some steps := by
            rw [hanswer, hsteps]
          cases budget with
          | zero =>
              rw [sessionFor_of_spent hhalted hsteps, sessionFor_of_spent hhalted hsteps', hanswer]
              exact .whole ((count_asked rows s _).trans_le hle)
          | succ budget =>
              have hcount := count_asked_append rows s
                (Typed.answer ⟨lines, true⟩ pending).prompts s.step.events
              cases hstep : s.step.fault with
              | some fault =>
                  rw [sessionFor_of_fault hhalted hsteps hstep,
                    sessionFor_of_fault hhalted hsteps' hstep, hanswer]
                  exact .whole (hcount.trans_le hle)
              | none =>
                  rw [sessionFor_of_step hhalted hsteps hstep,
                    sessionFor_of_step hhalted hsteps' hstep, Typed.left, Typed.left, hanswer]
                  refine .after (hcount.trans_le hle) ?_
                  rw [hcount]
                  exact ih budget (Nat.lt_succ_self budget) (Typed.le_length_rest hread pending)
                    s.next (steps - 1)

/-- The steps of a session are counted exactly.  A line is an answer if it is blank or a number,
and each other line is refused.  The headers are the numbers from zero on.  The questions are
put at zero and after as many steps as the answers so far have asked for, once for each refused
line and once for the answer, and nowhere else.  The lines are read one at a time, when they are
asked for, and none once the machine has halted, a step has failed or the limit is reached. -/
theorem session_asks (program : Program) (limits : Limits) (rows : List Row) (text : String) :
    (∀ line steps, stepsAsked line = some steps ↔ AsksFor line steps) ∧
    (∃ prompts taken turns,
      (session program limits rows (.ofText text)).Course rows limits.stepLimit limits.stepLimit
        (.start program.machine) prompts taken turns ∧
      (∀ i, prompts (questionAt (Text.lines text) i) =
        refusedBefore (Text.lines text) i + 1) ∧
      (∀ k, (∀ i, questionAt (Text.lines text) i ≠ k) → prompts k = 0) ∧
      ∀ labels, Printed.marks ((session program limits rows (.ofText text)).text labels) =
        (List.range turns).flatMap fun k =>
          .line ("--- ins #" ++ k.repr ++ " ---") :: List.replicate (prompts k) .prompt) ∧
    (∀ shown, shown <+: (session program limits rows (.ofText text)).shown →
      shown.filterMap Shown.header? =
        List.range (shown.filterMap Shown.header?).length) ∧
    ∀ read ≤ (Text.lines text).length,
      (session program limits rows (.ofText text)).Reads read
        (session program limits rows ⟨(Text.lines text).take read, false⟩) := by
  have hended : (Typed.ofText text).ended = true := rfl
  obtain ⟨taken, turns, hcourse⟩ := course_sessionFor hended rows limits.stepLimit
    limits.stepLimit (.start program.machine) 0
  refine ⟨fun _ _ => stepsAsked_eq_some_iff, ⟨_, taken, turns, hcourse, ?_, ?_, ?_⟩, ?_, ?_⟩
  · exact Typed.promptsAt_questionAt (Text.lines text)
  · exact fun k => Typed.promptsAt_eq_zero
  · exact hcourse.marks_text rfl
  · intro shown hshown
    have hheaders := hshown.filterMap Shown.header?
    rw [session, hcourse.headers_eq rfl] at hheaders
    exact eq_range_of_prefix hheaders
  · intro read hread
    exact reads_sessionFor hread rows limits.stepLimit limits.stepLimit _ 0

/-- Three steps, one step, and a refused line before the end of the text. -/
theorem session_asks_refused :
    ∃ prompts taken turns,
      (session (Outline.loop.program { memorySize := 16 }) { memorySize := 16 } []
        (.ofText "3\n\nsix")).Course [] (Limits.stepLimit { memorySize := 16 })
          (Limits.stepLimit { memorySize := 16 })
          (.start (Outline.loop.program { memorySize := 16 }).machine) prompts taken turns ∧
      prompts 0 = 1 ∧ prompts 1 = 0 ∧ prompts 3 = 1 ∧ prompts 4 = 2 := by
  obtain ⟨-, ⟨prompts, taken, turns, hcourse, hasked, hsilent, -⟩, -, -⟩ := session_asks
    (Outline.loop.program { memorySize := 16 }) { memorySize := 16 } [] "3\n\nsix"
  have hlines : Text.lines "3\n\nsix" = [['3'], [], ['s', 'i', 'x']] := by cbv
  rw [hlines] at hasked hsilent
  have hfirst : stepsOf [['3'], [], ['s', 'i', 'x']] 0 = 3 := by cbv
  have hsecond : stepsOf [['3'], [], ['s', 'i', 'x']] 1 = 1 := by cbv
  have hzero := hasked 0
  have hthree := hasked 1
  have hfour := hasked 2
  rw [questionAt, Finset.sum_range_zero] at hzero
  rw [questionAt, Finset.sum_range_one, hfirst] at hthree
  rw [questionAt, Finset.sum_range_succ, Finset.sum_range_one, hfirst, hsecond] at hfour
  have hrefused : refusedBefore [['3'], [], ['s', 'i', 'x']] 2 = 1 := by cbv
  rw [hrefused] at hfour
  refine ⟨prompts, taken, turns, hcourse, hzero, ?_, hthree, hfour⟩
  refine hsilent 1 fun i hi => ?_
  cases i with
  | zero => exact absurd hi (by simp [questionAt])
  | succ i =>
      rw [questionAt_succ, hfirst] at hi
      omega

end Debugger

end WordMachine
