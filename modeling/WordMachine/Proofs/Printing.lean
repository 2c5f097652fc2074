import Mathlib
import WordMachine.Proofs.Replay
import WordMachine.Proofs.Sessions
import WordMachine.Proofs.Tables

/-!
# Reading what is printed

What a command prints is read back from its text alone.  A text is cut into lines, and the
prompts at the front of a line are told from the rest of it.  No line that a run or a session
prints looks like a prompt, and the lines of a log and the headers of a session look like no
other line.
-/

namespace WordMachine

theorem Text.isPlain_toDigits (n : Nat) : IsPlain (Nat.toDigits 10 n) := by
  have hdigits : ∀ c ∈ Nat.toDigits 10 n, c.isDigit := fun c =>
    Nat.isDigit_of_mem_toDigits (by decide) (by decide)
  apply isPlain_of_visible
  · simpa using fun c hc => isBlank_of_isDigit (hdigits c hc)
  · exact fun hbar => absurd (hdigits _ hbar) (by decide)

/-- A part of a printed text.  What is printed behind a prompt stays on its line. -/
inductive Printed where
  | prompt
  | line (text : String)
  deriving DecidableEq, Repr

namespace Printed

def text : Printed → String
  | prompt => ">>> "
  | line s => s ++ "\n"

variable {s : String} {parts : List Printed}

def ofLine : List Char → List Printed
  | '>' :: '>' :: '>' :: ' ' :: rest => prompt :: ofLine rest
  | rest => [line (String.ofList rest)]

/-- The parts of a text.  What stands behind the last line feed counts as a line. -/
def ofText (s : String) : List Printed := (Text.lines s).flatMap ofLine

/-- A part that keeps to itself: a line with no line feed in it and no prompt at its front. -/
def IsWhole : Printed → Prop
  | prompt => True
  | line s => '\n' ∉ s.toList ∧ s.toList.head? ≠ some '>'

theorem ofLine_of_head? {chars : List Char} (h : chars.head? ≠ some '>') :
    ofLine chars = [line (String.ofList chars)] := by
  rw [ofLine]
  rintro rest rfl
  exact h rfl

/-- A prompt stays in front of what is printed behind it. -/
theorem ofText_prompt_append (rest : String) : ofText (">>> " ++ rest) = prompt :: ofText rest := by
  obtain ⟨first, back, hsplit⟩ :=
    List.exists_cons_of_ne_nil (List.splitOn_ne_nil '\n' rest.toList)
  have hmark : (">>> " ++ rest).toList = '>' :: '>' :: '>' :: ' ' :: rest.toList := by simp
  have hlines : Text.lines (">>> " ++ rest) = ('>' :: '>' :: '>' :: ' ' :: first) :: back := by
    rw [Text.lines, hmark]
    simp [List.splitOn_cons_eq_if_modifyHead, hsplit]
  rw [ofText, hlines, ofText, Text.lines, hsplit]
  rfl

theorem ofText_line_append (hwhole : (line s).IsWhole) (rest : String) :
    ofText (s ++ "\n" ++ rest) = line s :: ofText rest := by
  have hlines : Text.lines (s ++ "\n" ++ rest) = s.toList :: Text.lines rest := by
    have hbreak : (s ++ "\n" ++ rest).toList = s.toList ++ '\n' :: rest.toList := by simp
    rw [Text.lines, hbreak, List.splitOn, List.splitOnP_append_cons _ _ rfl, ← List.splitOn,
      List.splitOn_eq_singleton hwhole.1]
    rfl
  rw [ofText, hlines, List.flatMap_cons, ofLine_of_head? hwhole.2, String.ofList_toList]
  rfl

/-- Whole parts are read back from the text that they make. -/
theorem ofText_join (hwhole : ∀ p ∈ parts, p.IsWhole) :
    ofText (String.join (parts.map text)) = parts ++ [line ""] := by
  induction parts with
  | nil => rfl
  | cons p parts ih =>
      obtain ⟨hp, hparts⟩ := List.forall_mem_cons.mp hwhole
      rw [List.map_cons, String.join_cons]
      cases p with
      | prompt => rw [text, ofText_prompt_append, ih hparts, List.cons_append]
      | line s => rw [text, ofText_line_append hp, ih hparts, List.cons_append]

def drawn (table : Text.BoxTable) : List Printed :=
  table.lines.map fun chars => line (String.ofList chars)

theorem join_drawn (table : Text.BoxTable) :
    String.join ((drawn table).map text) = table.render ++ "\n" := by
  rw [Text.BoxTable.render_append, drawn, List.map_map]
  rfl

def logMarks : List String := ["Fetched ", "--> ", "Cannot "]

/-- The line of a log that a part is, if it is one. -/
def logged? : Printed → Option String
  | line s => if logMarks.any fun mark => mark.toList.isPrefixOf s.toList then some s else none
  | prompt => none

/-- Whether a part is a prompt or a line with the number of an instruction. -/
def isMark : Printed → Bool
  | line s => "--- ins #".toList.isPrefixOf s.toList
  | prompt => true

/-- The lines of a text that belong to a log. -/
def logged (s : String) : List String := (ofText s).filterMap logged?

/-- The prompts and the lines with numbers of instructions in a text. -/
def marks (s : String) : List Printed := (ofText s).filter isMark

/-- The lines of a text without the prompts in front of them. -/
def withoutPrompts (s : String) : List Printed := (ofText s).filter (· ≠ prompt)

def cells (s : String) : List String := (Text.cellsOf s.toList).map String.ofList

/-- A text ends with the summary of a run. -/
def EndsRun (s : String) (steps : Nat) (eax : Word) : Prop :=
  [line "--- summary ---", line ("instruction count: " ++ steps.repr), line ("eax: " ++ eax.text),
    line ""] <:+ ofText s

/-- A text ends with the summary of a session, a table with two cells below its heading. -/
def EndsSession (s : String) (steps : Nat) (eax : Word) : Prop :=
  ∃ top heading middle row bottom,
    [line "--- summary ---", line top, line heading, line middle, line row, line bottom,
      line ""] <:+ ofText s ∧
    cells heading = ["ins_count", "eax"] ∧ cells row = [steps.repr, eax.text]

/-- The lines of a table begin with parts of its box, so they are no other lines. -/
theorem of_mem_drawn {table : Text.BoxTable} {part : Printed} (h : part ∈ drawn table) :
    part.IsWhole ∧ part.logged? = none ∧ part.isMark = false := by
  obtain ⟨chars, hchars, rfl⟩ := List.mem_map.mp h
  obtain ⟨⟨c, hc, hhead⟩, hunbroken⟩ := Text.BoxTable.isDrawn_of_mem_lines hchars
  obtain ⟨rest, rfl⟩ := List.head?_eq_some_iff.mp hhead
  refine ⟨⟨?_, ?_⟩, ?_, ?_⟩
  · rwa [String.toList_ofList]
  · fin_cases hc <;> simp
  · fin_cases hc <;> simp [logged?, logMarks]
  · fin_cases hc <;> simp [isMark, List.isPrefixOf]

end Printed

namespace Event

/-- The line of an event begins as the lines of a log do. -/
theorem exists_mark_prefix_text (e : Event) :
    ∃ mark ∈ Printed.logMarks, mark.toList <+: e.text.toList := by
  obtain ⟨first, rest, hwords, hfirst, hrest⟩ : ∃ first rest, e.words = first :: rest ∧
      first ∈ ["Fetched", "-->", "Cannot"] ∧ rest ≠ [] := by
    cases e <;> exact ⟨_, _, rfl, by decide, List.cons_ne_nil _ _⟩
  have htext : e.text = first ++ " " ++ " ".intercalate rest := by
    rw [text_eq_intercalate, hwords, String.intercalate_cons_of_ne_nil hrest]
  refine ⟨first ++ " ", ?_, ?_⟩
  · fin_cases hfirst <;> decide
  · rw [htext]
    exact ⟨_, (String.toList_append).symm⟩

theorem break_notMem_text (e : Event) : '\n' ∉ e.text.toList := by
  rw [text_eq_intercalate, String.toList_intercalate]
  apply Text.notMem_intercalate (by decide)
  intro word hword
  obtain ⟨s, hs, rfl⟩ := List.mem_map.mp hword
  exact blank_notMem_words (by decide) hs

/-- The line of an event is a line of a log and no other line. -/
theorem line_text (e : Event) :
    (Printed.line e.text).IsWhole ∧ (Printed.line e.text).logged? = some e.text ∧
      (Printed.line e.text).isMark = false := by
  obtain ⟨mark, hmark, hprefix⟩ := e.exists_mark_prefix_text
  refine ⟨⟨e.break_notMem_text, ?_⟩, ?_, ?_⟩
  · obtain ⟨rest, hrest⟩ := hprefix
    rw [← hrest]
    fin_cases hmark <;> simp
  · have hlogged : (Printed.logMarks.any fun mark => mark.toList.isPrefixOf e.text.toList) = true :=
      List.any_eq_true.mpr ⟨mark, hmark, List.isPrefixOf_iff_prefix.mpr hprefix⟩
    rw [Printed.logged?, if_pos hlogged]
  · obtain ⟨rest, hrest⟩ := hprefix
    rw [Printed.isMark, ← hrest]
    fin_cases hmark <;> simp [List.isPrefixOf]

end Event

namespace Debugger

variable {labels : SymbolTable} {shown : Shown}

/-- The parts of the text of what a session shows. -/
def Shown.printed (labels : SymbolTable) : Shown → List Printed
  | frame shown =>
    .line "" :: .line ("--- ins #" ++ shown.steps.repr ++ " ---") ::
      (Printed.drawn (shown.windowTable labels) ++ Printed.drawn shown.registerTable)
  | prompt => [.prompt]
  | logged e => [.line e.text]
  | summary steps eax =>
    .line "" :: .line "--- summary ---" :: Printed.drawn (summaryTable steps eax)

/-- Each thing that is shown is printed as its parts. -/
theorem Shown.text_eq_join (labels : SymbolTable) (shown : Shown) :
    shown.text labels = String.join ((shown.printed labels).map Printed.text) := by
  have hsingle : ∀ s : String, String.join [s] = s := by simp
  cases shown with
  | frame shown =>
      rw [printed, List.map_cons, List.map_cons, List.map_append, String.join_cons,
        String.join_cons, String.join_append, Printed.join_drawn, Printed.join_drawn]
      change "\n--- ins #" ++ shown.steps.repr ++ " ---\n" ++ (shown.windowTable labels).render ++
        "\n" ++ shown.registerTable.render ++ "\n" = _
      apply String.toList_injective
      simp [Printed.text]
  | prompt | logged e => exact (hsingle _).symm
  | summary steps eax =>
      rw [printed, List.map_cons, List.map_cons, String.join_cons, String.join_cons,
        Printed.join_drawn]
      change "\n--- summary ---\n" ++ (summaryTable steps eax).render ++ "\n" = _
      apply String.toList_injective
      simp [Printed.text]

example :
    (Frame.registerTable ⟨3, { eax := 7, esp := 9, eip := 2 }, true, false, []⟩).render =
      "\n".intercalate
        ["┌─────┬─────┬─────┬─────┬─────┬─────┬─────┬──────┬────────┐",
          "│ eax │ ebx │ ecx │ edx │ ebp │ esp │ eip │ zf   │ halted │",
          "├─────┼─────┼─────┼─────┼─────┼─────┼─────┼──────┼────────┤",
          "│ 7   │ 0   │ 0   │ 0   │ 0   │ 9   │ 2   │ true │ false  │",
          "└─────┴─────┴─────┴─────┴─────┴─────┴─────┴──────┴────────┘"] := by
  decide +kernel

/-- All parts are whole, and only a prompt has a prompt among them. -/
theorem Shown.of_mem_printed {part : Printed} (h : part ∈ shown.printed labels) :
    part.IsWhole ∧ (part = .prompt ↔ shown = .prompt) := by
  have hdrawn : ∀ {table}, part ∈ Printed.drawn table → part.IsWhole ∧ part ≠ .prompt := by
    intro table hpart
    refine ⟨(Printed.of_mem_drawn hpart).1, ?_⟩
    rintro rfl
    exact Bool.noConfusion (Printed.of_mem_drawn hpart).2.2
  have hblank : (Printed.line "").IsWhole := by simp [Printed.IsWhole]
  cases shown with
  | frame shown =>
      have hheader : (Printed.line ("--- ins #" ++ shown.steps.repr ++ " ---")).IsWhole := by
        simp [Printed.IsWhole, (Text.isPlain_toDigits shown.steps).unbroken]
      simp only [printed, List.mem_cons, List.mem_append] at h
      rcases h with rfl | rfl | h | h
      · simpa using hblank
      · simpa using hheader
      · simpa using hdrawn h
      · simpa using hdrawn h
  | prompt =>
      rw [List.mem_singleton.mp h]
      simp [Printed.IsWhole]
  | logged e =>
      rw [List.mem_singleton.mp h]
      simpa using e.line_text.1
  | summary steps eax =>
      simp only [printed, List.mem_cons] at h
      rcases h with rfl | rfl | h
      · simpa using hblank
      · simp [Printed.IsWhole]
      · simpa using hdrawn h

/-- The text of a session is read back as the parts that it shows. -/
theorem Session.ofText_text (session : Session) (labels : SymbolTable) :
    Printed.ofText (session.text labels) =
      session.shown.flatMap (Shown.printed labels) ++ [.line ""] := by
  have htext : session.text labels =
      String.join ((session.shown.flatMap (Shown.printed labels)).map Printed.text) := by
    apply String.toList_injective
    rw [text, String.toList_join, String.toList_join, List.map_flatMap, List.flatMap_map,
      List.flatMap_assoc]
    exact List.flatMap_congr fun shown _ => by
      rw [Shown.text_eq_join labels, String.toList_join]
  rw [htext]
  apply Printed.ofText_join
  intro part hpart
  obtain ⟨shown, -, hpart⟩ := List.mem_flatMap.mp hpart
  exact (Shown.of_mem_printed hpart).1

/-- What a session shows is found in its text. -/
theorem Session.printed_isInfix_text {session : Session} (h : shown ∈ session.shown)
    (labels : SymbolTable) :
    shown.printed labels <:+: Printed.ofText (session.text labels) := by
  obtain ⟨front, back, hshown⟩ := List.append_of_mem h
  rw [ofText_text, hshown, List.flatMap_append, List.flatMap_cons]
  exact ⟨front.flatMap (Shown.printed labels),
    back.flatMap (Shown.printed labels) ++ [.line ""], by simp⟩

theorem Shown.filterMap_logged?_printed (labels : SymbolTable) (shown : Shown) :
    (shown.printed labels).filterMap Printed.logged? = shown.event?.toList.map Event.text := by
  have hdrawn : ∀ table, (Printed.drawn table).filterMap Printed.logged? = [] := fun table =>
    List.filterMap_eq_nil_iff.mpr fun part hpart => (Printed.of_mem_drawn hpart).2.1
  cases shown with
  | frame shown =>
      have hheader : (Printed.line ("--- ins #" ++ shown.steps.repr ++ " ---")).logged? = none := by
        simp [Printed.logged?, Printed.logMarks]
      rw [printed, List.filterMap_cons_none rfl, List.filterMap_cons_none hheader,
        List.filterMap_append, hdrawn, hdrawn]
      rfl
  | prompt => rfl
  | logged e =>
      rw [printed, List.filterMap_cons_some e.line_text.2.1]
      rfl
  | summary steps eax =>
      rw [printed, List.filterMap_cons_none rfl, List.filterMap_cons_none rfl, hdrawn]
      rfl

/-- The lines of the log in the text of a session are those of its events. -/
theorem Session.logged_text (session : Session) (labels : SymbolTable) :
    Printed.logged (session.text labels) = session.events.map Event.text := by
  rw [Printed.logged, ofText_text, List.filterMap_append, List.filterMap_flatMap, events,
    List.filterMap_eq_flatMap_toList Shown.event?, List.map_flatMap]
  simp only [Shown.filterMap_logged?_printed]
  exact List.append_nil _

/-- The parts of what is shown that tell where an instruction or a prompt is. -/
def Shown.marks : Shown → List Printed
  | frame shown => [.line ("--- ins #" ++ shown.steps.repr ++ " ---")]
  | prompt => [.prompt]
  | logged _ | summary _ _ => []

theorem Shown.filter_isMark_printed (labels : SymbolTable) (shown : Shown) :
    (shown.printed labels).filter Printed.isMark = shown.marks := by
  have hdrawn : ∀ table, (Printed.drawn table).filter Printed.isMark = [] := fun table =>
    List.filter_eq_nil_iff.mpr fun part hpart => by simp [(Printed.of_mem_drawn hpart).2.2]
  cases shown with
  | frame shown =>
      have hheader : (Printed.line ("--- ins #" ++ shown.steps.repr ++ " ---")).isMark = true := by
        simp [Printed.isMark]
      rw [printed, List.filter_cons_of_neg (by decide), List.filter_cons_of_pos hheader,
        List.filter_append, hdrawn, hdrawn]
      rfl
  | prompt => rfl
  | logged e =>
      rw [printed, List.filter_cons_of_neg (by simp [e.line_text.2.2])]
      rfl
  | summary steps eax =>
      rw [printed, List.filter_cons_of_neg (by decide), List.filter_cons_of_neg (by decide), hdrawn]
      rfl

theorem Session.marks_text (session : Session) (labels : SymbolTable) :
    Printed.marks (session.text labels) = session.shown.flatMap Shown.marks := by
  rw [Printed.marks, ofText_text, List.filter_append, List.filter_flatMap]
  simp only [Shown.filter_isMark_printed]
  exact List.append_nil _

theorem Shown.filter_printed (labels : SymbolTable) (shown : Shown) :
    (shown.printed labels).filter (· ≠ .prompt) =
      if shown ≠ .prompt then shown.printed labels else [] := by
  split
  · next hshown =>
    rw [List.filter_eq_self]
    intro part hpart
    simpa using mt (of_mem_printed hpart).2.mp hshown
  · next hshown =>
    rw [List.filter_eq_nil_iff]
    intro part hpart
    simpa using (of_mem_printed hpart).2.mpr (not_not.mp hshown)

/-- Without its prompts a session prints what it shows besides them. -/
theorem Session.withoutPrompts_text (session : Session) (labels : SymbolTable) :
    Printed.withoutPrompts (session.text labels) =
      session.withoutPrompts.shown.flatMap (Shown.printed labels) ++ [.line ""] := by
  have hshown : ∀ shown : List Shown,
      (shown.flatMap fun s => (s.printed labels).filter (· ≠ .prompt)) =
        (shown.filter (· ≠ .prompt)).flatMap (Shown.printed labels) := by
    intro shown
    induction shown with
    | nil => rfl
    | cons first rest ih =>
        rw [List.flatMap_cons, ih, Shown.filter_printed]
        by_cases hfirst : first = .prompt
        · rw [if_neg (by simpa using hfirst), List.filter_cons_of_neg (by simpa using hfirst)]
          rfl
        · rw [if_pos hfirst, List.filter_cons_of_pos (by simpa using hfirst), List.flatMap_cons]
  rw [Printed.withoutPrompts, ofText_text, List.filter_append, List.filter_flatMap, hshown]
  rfl

theorem summaryTable_isPlain (steps : Nat) (eax : Word) : (summaryTable steps eax).IsPlain where
  header_ne_nil := List.cons_ne_nil _ _
  rows_ne_nil := List.cons_ne_nil _ _
  length_eq := by simp [summaryTable]
  header_plain := by
    intro cell hcell
    change cell ∈ ["ins_count", "eax"] at hcell
    fin_cases hcell <;> exact Text.isPlain_of_visible (by decide) (by decide)
  rows_plain := by
    simp [summaryTable, Word.text, Text.isPlain_toDigits]

/-- A summary that is shown last is read back from the end of the text. -/
theorem Session.endsSession_text {session : Session} {front : List Shown} {steps : Nat} {eax : Word}
    (h : session.shown = front ++ [.summary steps eax]) (labels : SymbolTable) :
    Printed.EndsSession (session.text labels) steps eax := by
  obtain ⟨top, heading, middle, body, bottom, hlines, hheading, hbody⟩ :=
    (summaryTable_isPlain steps eax).exists_lines
  obtain ⟨row, rfl⟩ : ∃ row, body = [row] := by
    have hlength := congrArg List.length hbody
    simpa [summaryTable, List.length_eq_one_iff] using hlength
  have hcells : ∀ (chars : List Char) (row : List String),
      Text.cellsOf chars = row.map String.toList → Printed.cells (String.ofList chars) = row := by
    intro chars row hchars
    rw [Printed.cells, String.toList_ofList, hchars]
    simp [Function.comp_def]
  refine ⟨String.ofList top, String.ofList heading, String.ofList middle, String.ofList row,
    String.ofList bottom, ?_, hcells _ _ hheading, hcells _ _ (List.head_eq_of_cons_eq hbody)⟩
  rw [ofText_text, h, List.flatMap_append, List.flatMap_singleton, Shown.printed, Printed.drawn,
    hlines]
  exact ⟨front.flatMap (Shown.printed labels) ++ [.line ""], by simp⟩

end Debugger

namespace Report

variable {events : List Event} {steps : Nat} {eax : Word}

theorem traceText_eq_join (events : List Event) :
    traceText events =
      String.join ((events.map fun e => Printed.line e.text).map Printed.text) := by
  rw [traceText, List.map_map]
  rfl

def summaryLines (steps : Nat) (eax : Word) : List Printed :=
  [.line "", .line "--- summary ---", .line ("instruction count: " ++ steps.repr),
    .line ("eax: " ++ eax.text)]

theorem summaryText_eq_join (steps : Nat) (eax : Word) :
    summaryText steps eax = String.join ((summaryLines steps eax).map Printed.text) := by
  change "\n--- summary ---\ninstruction count: " ++ steps.repr ++ "\neax: " ++ eax.text ++ "\n" = _
  apply String.toList_injective
  simp [summaryLines, Printed.text]

def runParts (trace : Bool) (events : List Event) (steps : Nat) (result : Except Error Word) :
    List Printed :=
  (if trace then events.map fun e => Printed.line e.text else []) ++
    result.toOption.toList.flatMap (summaryLines steps)

theorem join_runParts (trace : Bool) (events : List Event) (steps : Nat)
    (result : Except Error Word) :
    String.join ((runParts trace events steps result).map Printed.text) =
      (if trace then traceText events else "") ++
        String.join (result.toOption.toList.map (summaryText steps)) := by
  have htrace : String.join ((if trace then events.map fun e => Printed.line e.text else []).map
      Printed.text) = if trace then traceText events else "" := by
    cases trace with
    | true => exact (traceText_eq_join events).symm
    | false => rfl
  have hsummary : String.join ((result.toOption.toList.flatMap (summaryLines steps)).map
      Printed.text) = String.join (result.toOption.toList.map (summaryText steps)) := by
    cases result with
    | error cause => rfl
    | ok eax => simp [Except.toOption, summaryText_eq_join]
  rw [runParts, List.map_append, String.join_append, htrace, hsummary]

theorem isWhole_of_mem_summaryLines {part : Printed} (h : part ∈ summaryLines steps eax) :
    part.IsWhole := by
  have hsteps : '\n' ∉ Nat.toDigits 10 steps := (Text.isPlain_toDigits steps).unbroken
  have heax : '\n' ∉ eax.text.toList := Word.blank_notMem_text (by decide) eax
  simp only [summaryLines, List.mem_cons, List.not_mem_nil, or_false] at h
  rcases h with rfl | rfl | rfl | rfl <;> simp [Printed.IsWhole, hsteps, heax]

theorem logged?_of_mem_summaryLines {part : Printed} (h : part ∈ summaryLines steps eax) :
    part.logged? = none := by
  simp only [summaryLines, List.mem_cons, List.not_mem_nil, or_false] at h
  rcases h with rfl | rfl | rfl | rfl <;> simp [Printed.logged?, Printed.logMarks]

theorem isWhole_of_mem_runParts {trace : Bool} {result : Except Error Word} {part : Printed}
    (h : part ∈ runParts trace events steps result) : part.IsWhole := by
  rcases List.mem_append.mp h with h | h
  · obtain ⟨-, h⟩ := List.mem_ite_nil_right.mp h
    obtain ⟨e, -, rfl⟩ := List.mem_map.mp h
    exact e.line_text.1
  · obtain ⟨eax, -, h⟩ := List.mem_flatMap.mp h
    exact isWhole_of_mem_summaryLines h

end Report

end WordMachine
