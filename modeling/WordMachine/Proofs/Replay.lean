import Mathlib
import WordMachine.Proofs.Changes
import WordMachine.Proofs.Slots
import WordMachine.Proofs.Words

/-!
# Replaying a log

The lines of a log are read back one by one, and each says what has changed in the machine.
Replaying them over the machine that a run began with gives the machine that it ended with,
however the run was divided into calls and whatever became of it.  Apart from that the log
holds one line for each instruction that was fetched.
-/

namespace WordMachine

namespace Line

def words (line : String) : List String := (Source.tokens line).map Token.text

/-- Whether a line reports that an instruction was fetched. -/
def reportsFetch (line : String) : Bool := (words line).take 2 == ["Fetched", "instruction:"]

/-- The address in a pair of square brackets. -/
def address? (word : String) : Option Word :=
  match word.toList with
  | '[' :: rest => if rest.getLast? = some ']' then Word.ofDigits? rest.dropLast else none
  | _ => none

def register? (name : String) : Option Register := Register.all.find? fun r => r.name == name

def flag? (word : String) : Option Bool :=
  if word = "true" then some true else if word = "false" then some false else none

/-- The change that the words behind an arrow report. -/
def effect? : List String → Option Change
  | [name, mark, value] =>
    if mark = "=" then return .register (← register? name) (← Word.ofText? value) else none
  | [verb, value, mark, cell] =>
    if verb = "wrote" ∧ mark = "to" then return .cell (← address? cell) (← Word.ofText? value)
    else none
  | [name, mark, _, "zero", "flag", flag] =>
    if mark = "==" ∧ (register? name).isSome then return .zeroFlag (← flag? flag) else none
  | _ => none

/-- The change that a line reports, if it reports one. -/
def change? (line : String) : Option Change :=
  match words line with
  | arrow :: rest => if arrow = "-->" then effect? rest else none
  | [] => none

theorem register?_name (r : Register) : register? r.name = some r := by
  cases r <;> decide

theorem flag?_toString (flag : Bool) : flag? (toString flag) = some flag := by
  cases flag <;> decide

theorem address?_bracket (w : Word) : address? ("[" ++ w.text ++ "]") = some w := by
  have hread := Word.ofText?_text w
  simpa [address?, Word.ofText?] using hread

end Line

def Machine.replay (m : Machine) (lines : List String) : Machine :=
  m.applyAll (lines.filterMap Line.change?)

namespace Event

def words : Event → List String
  | fetched ins address =>
    "Fetched" :: "instruction:" :: (ins.tokens Word.text ++ ["at", "address", address.text])
  | jumped target => ["-->", "jump", "to", target.text]
  | passed => ["-->", "zero", "flag", "clear,", "no", "jump"]
  | compared r value equal =>
    ["-->", r.name, "==", value.text ++ ":", "zero", "flag", toString equal]
  | read value address => ["-->", "read", value.text, "from", "[" ++ address.text ++ "]"]
  | wrote value address => ["-->", "wrote", value.text, "to", "[" ++ address.text ++ "]"]
  | assigned r value => ["-->", r.name, "=", value.text]
  | exited => ["-->", "exit"]
  | refused => ["Cannot", "step:", "interpreter", "is", "halted"]

-- The lines are compared character by character, since a literal between two values is cut
-- at other places in the words.
theorem text_eq_intercalate (e : Event) : e.text = " ".intercalate e.words := by
  cases e with
  | fetched ins address =>
      have hne : ins.tokens Word.text ≠ [] := List.cons_ne_nil _ _
      change "Fetched instruction: " ++ " ".intercalate (ins.tokens Word.text) ++ " at address " ++
        address.text = _
      rw [words, String.intercalate_cons_of_ne_nil (by simp),
        String.intercalate_cons_of_ne_nil (by simp),
        String.intercalate_append_of_ne_nil hne (by simp)]
      apply String.toList_injective
      simp
  | jumped target | passed | exited | refused =>
      simp only [words, String.intercalate_cons_cons, String.intercalate_singleton,
        ← String.append_assoc]
      rfl
  | compared r value equal =>
      change "--> " ++ r.name ++ " == " ++ value.text ++ ": zero flag " ++ toString equal = _
      apply String.toList_injective
      simp [words]
  | read value address =>
      change "--> read " ++ value.text ++ " from [" ++ address.text ++ "]" = _
      apply String.toList_injective
      simp [words]
  | wrote value address =>
      change "--> wrote " ++ value.text ++ " to [" ++ address.text ++ "]" = _
      apply String.toList_injective
      simp [words]
  | assigned r value =>
      change "--> " ++ r.name ++ " = " ++ value.text = _
      apply String.toList_injective
      simp [words]

theorem blank_notMem_words {c : Char} (hc : Text.isBlank c = true) {e : Event} {s : String}
    (hs : s ∈ e.words) : c ∉ s.toList := by
  have hvalue (w : Word) : w.text.toList.any Text.isBlank = false :=
    List.any_eq_false.mpr fun c hmem hblank => Word.blank_notMem_text hblank w hmem
  have hname (r : Register) : r.name.toList.any Text.isBlank = false := by
    cases r <;> decide
  have hflag (flag : Bool) : (toString flag).toList.any Text.isBlank = false := by
    cases flag <;> decide
  cases e with
  | fetched ins address =>
      simp only [words, List.mem_cons, List.mem_append, List.not_mem_nil, or_false] at hs
      rcases hs with rfl | rfl | hs | rfl | rfl | rfl
      · exact Text.blank_notMem hc (by decide)
      · exact Text.blank_notMem hc (by decide)
      · exact Instruction.blank_notMem_tokens hc (fun v _ => Word.blank_notMem_text hc v) hs
      · exact Text.blank_notMem hc (by decide)
      · exact Text.blank_notMem hc (by decide)
      · exact Word.blank_notMem_text hc address
  | _ =>
      apply Text.blank_notMem hc
      revert s
      simp only [words, List.forall_mem_cons, String.toList_append, List.any_append, hvalue, hname,
        hflag, Bool.or_false, Bool.false_or, true_and]
      decide

/-- The line of an event is read back as its words. -/
theorem words_text (e : Event) : Line.words e.text = e.words := by
  rw [text_eq_intercalate]
  apply Source.map_text_tokens_intercalate
  · cases e <;> simp [words]
  · exact fun s => blank_notMem_words (by decide)

/-- The line of an event reports the change that the event does. -/
theorem change?_text (e : Event) : Line.change? e.text = e.change? := by
  rw [Line.change?, words_text]
  cases e with
  | compared r value equal =>
      simp [words, Line.effect?, Line.register?_name, Line.flag?_toString, change?]
  | wrote value address => simp [words, Line.effect?, Line.address?_bracket, change?]
  | assigned r value => simp [words, Line.effect?, Line.register?_name, change?]
  | fetched | jumped | passed | read | exited | refused => rfl

theorem reportsFetch_text (e : Event) : Line.reportsFetch e.text = e.row?.isSome := by
  rw [Line.reportsFetch, words_text]
  cases e <;> simp [words, row?]

/-- Lines report the changes of their events. -/
theorem filterMap_change?_text (events : List Event) :
    (events.map text).filterMap Line.change? = changes events := by
  rw [List.filterMap_map, changes]
  congr 1
  exact funext change?_text

theorem length_filter_reportsFetch (events : List Event) :
    ((events.map text).filter Line.reportsFetch).length = (rows events).length := by
  induction events with
  | nil => rfl
  | cons e rest ih =>
      rw [List.map_cons, List.filter_cons, rows, List.filterMap_cons, reportsFetch_text]
      cases e.row? with
      | none => exact ih
      | some row => exact congrArg (· + 1) ih

end Event

namespace State

def lines (s : State) : List String := s.step.events.map Event.text

/-- What a step logs.  The line of the fetch comes first, if an instruction is fetched, and it
is the only one if the instruction then fails. -/
def LogsFetch (s : State) : Prop :=
  if s.halted then
    s.lines = ["Cannot step: interpreter is halted"]
  else
    match Instruction.ofMemory s.machine.memory s.machine.ip with
    | .error _ => s.lines = []
    | .ok ins =>
      ∃ effects, s.lines =
          s!"Fetched instruction: {ins.text} at address {s.machine.ip.text}" :: effects ∧
        (∀ line ∈ effects, Line.reportsFetch line = false) ∧
        (s.step.fault ≠ none → effects = [])

theorem logsFetch (s : State) : s.LogsFetch := by
  rw [LogsFetch]
  split
  · next hhalted =>
    rw [lines, step_of_halted hhalted]
    rfl
  · next hhalted =>
    have hrunning : s.halted = false := by simpa using hhalted
    split
    · next fault hfetch =>
      rw [lines, step_of_fetch_error hrunning hfetch]
      rfl
    · next ins hfetch =>
      have houtcome := Machine.outcome_execute s.machine ins
      rw [lines, step_of_fetch hrunning hfetch]
      refine ⟨(s.machine.execute ins).events.map Event.text, rfl, ?_, ?_⟩
      · intro line hline
        obtain ⟨e, he, rfl⟩ := List.mem_map.mp hline
        rw [Event.reportsFetch_text, List.filterMap_eq_nil_iff.mp houtcome.rows_eq e he]
        rfl
      · intro hfault
        rw [houtcome.events_of_fault hfault]
        rfl

theorem map_text_eventsFor (n : Nat) (s : State) :
    (s.eventsFor n).map Event.text = (List.range n).flatMap fun i => (next^[i] s).lines :=
  List.map_flatMap

end State

/-- A log is a complete record.  Replaying its lines over the first machine gives the last
one, but for the instruction pointer.  There is a line for each instruction that was fetched,
and the lines are those of single steps, each of which reports what it found at the
instruction pointer. -/
theorem Transcript.replay_calls (s : State) (cs : List Call) :
    let t := Transcript.calls ⟨s, []⟩ cs
    (s.machine.replay t.lines).jump t.state.machine.ip = t.state.machine ∧
    t.state.steps = s.steps + (t.lines.filter Line.reportsFetch).length ∧
    (∃ n, t.state = State.next^[n] s ∧
      t.lines = (List.range n).flatMap fun i => (State.next^[i] s).lines) ∧
    ∀ u : State, u.LogsFetch := by
  intro t
  obtain ⟨events, hreaches, hlines⟩ := Transcript.reaches_calls ⟨s, []⟩ cs
  have hlog : t.lines = events.map Event.text := hlines
  refine ⟨?_, ?_, ?_, State.logsFetch⟩
  · rw [hlog, Machine.replay, Event.filterMap_change?_text]
    exact hreaches.machine_eq
  · rw [hlog, Event.length_filter_reportsFetch]
    exact hreaches.steps_eq
  · obtain ⟨n, hstate, hevents⟩ := hreaches
    exact ⟨n, hstate, by rw [hlog, hevents, State.map_text_eventsFor]⟩

end WordMachine
