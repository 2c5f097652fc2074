import Mathlib
import WordMachine.Program
import WordMachine.Proofs.Words

/-!
# The layout of lines

A text that is folded keeps nothing of its lines but what stands on them.  So blanks at its ends
do not count, and blanks with a line feed among them are one space between two words.
-/

namespace WordMachine

namespace Text

/-- What stands on the lines of a text.  Each line is trimmed, and blank lines are left out. -/
def contents (text : List Char) : List (List Char) :=
  ((text.splitOn '\n').map trim).filter (· ≠ [])

def AllBlank (text : List Char) : Prop := ∀ c ∈ text, isBlank c = true

variable {text rest gap front back : List Char} {c d : Char}

theorem trim_blank_append (hgap : AllBlank gap) (text : List Char) :
    trim (gap ++ text) = trim text := by
  rw [trim, List.dropWhile_append_of_pos hgap, trim]

theorem trim_append_blank (hgap : AllBlank gap) (text : List Char) :
    trim (text ++ gap) = trim text := by
  have hreverse : ∀ c ∈ gap.reverse, isBlank c = true := fun c hc =>
    hgap c (List.mem_reverse.mp hc)
  rw [trim, trim, List.dropWhile_append]
  split
  · next hempty =>
    rw [List.isEmpty_iff.mp hempty, List.dropWhile_eq_nil_iff.mpr hgap]
  · rw [List.reverse_append, List.dropWhile_append_of_pos hreverse]

theorem not_isBlank_head?_trim (text : List Char) :
    ∀ c ∈ (trim text).head?, isBlank c = false := by
  intro c hc
  have hprefix : trim text <+: text.dropWhile isBlank := List.rdropWhile_prefix isBlank _
  obtain ⟨rest, hrest⟩ := List.head?_eq_some_iff.mp hc
  obtain ⟨back, hback⟩ := hrest ▸ hprefix
  have hfirst := List.head?_dropWhile_not isBlank text
  rw [← hback] at hfirst
  exact hfirst

theorem not_isBlank_getLast?_trim (text : List Char) :
    ∀ c ∈ (trim text).getLast?, isBlank c = false := by
  intro c hc
  rw [trim, List.getLast?_reverse] at hc
  have hlast := List.head?_dropWhile_not isBlank (text.dropWhile isBlank).reverse
  rw [Option.mem_def.mp hc] at hlast
  exact hlast

/-- A line break cuts the contents in two. -/
theorem contents_break (text rest : List Char) :
    contents (text ++ '\n' :: rest) = contents text ++ contents rest := by
  rw [contents, List.splitOn, List.splitOnP_append_cons text rest (by decide), List.map_append,
    List.filter_append]
  rfl

theorem contents_cons_blank (hc : isBlank c = true) (text : List Char) :
    contents (c :: text) = contents text := by
  by_cases hline : c = '\n'
  · subst hline
    exact contents_break [] text
  · obtain ⟨first, back, htext⟩ := List.exists_cons_of_ne_nil (List.splitOn_ne_nil '\n' text)
    have htrim : trim (c :: first) = trim first :=
      trim_blank_append (List.forall_mem_singleton.mpr hc) first
    rw [contents, contents, List.splitOn_cons_eq_if_modifyHead, if_neg (by simpa using hline),
      htext, List.modifyHead_cons, List.map_cons, List.map_cons, htrim]

theorem contents_concat_blank (hc : isBlank c = true) (text : List Char) :
    contents (text ++ [c]) = contents text := by
  by_cases hline : c = '\n'
  · subst hline
    rw [contents_break]
    exact List.append_nil _
  · obtain ⟨front, last, first, back, htext, hc', hboth⟩ := exists_splitOn_append '\n' text [c]
    rw [List.splitOn_eq_singleton (by simpa using Ne.symm hline)] at hc'
    obtain ⟨rfl, rfl⟩ := List.cons.inj hc'
    have htrim : trim (last ++ [c]) = trim last :=
      trim_append_blank (List.forall_mem_singleton.mpr hc) last
    rw [contents, contents, hboth, htext, List.map_append, List.map_append, List.map_singleton,
      List.map_singleton, htrim]

theorem contents_blank_append (hgap : AllBlank gap) (text : List Char) :
    contents (gap ++ text) = contents text := by
  induction gap with
  | nil => rfl
  | cons c gap ih =>
      obtain ⟨hc, hgap⟩ := List.forall_mem_cons.mp hgap
      rw [List.cons_append, contents_cons_blank hc, ih hgap]

theorem contents_append_blank (hgap : AllBlank gap) (text : List Char) :
    contents (text ++ gap) = contents text := by
  induction gap generalizing text with
  | nil => rw [List.append_nil]
  | cons c gap ih =>
      obtain ⟨hc, hgap⟩ := List.forall_mem_cons.mp hgap
      rw [List.append_cons, ih hgap, contents_concat_blank hc]

/-- Blanks that hold a line feed divide a text as the line feed does. -/
theorem contents_gap (hgap : AllBlank gap) (hbreak : '\n' ∈ gap) (text rest : List Char) :
    contents (text ++ gap ++ rest) = contents text ++ contents rest := by
  obtain ⟨before, after, rfl⟩ := List.append_of_mem hbreak
  obtain ⟨hbefore, hafter⟩ := List.forall_mem_append.mp hgap
  have hsplit : text ++ (before ++ '\n' :: after) ++ rest =
      (text ++ before) ++ '\n' :: (after ++ rest) := by simp
  rw [hsplit, contents_break, contents_append_blank hbefore,
    contents_blank_append (List.forall_mem_cons.mp hafter).2]

theorem exists_dropWhile_append (hc : isBlank c = false) (text : List Char) :
    ∃ core, ∀ rest, (text ++ c :: rest).dropWhile isBlank = core ++ c :: rest := by
  induction text with
  | nil => exact ⟨[], fun rest => by simp [hc]⟩
  | cons head text ih =>
      cases hhead : isBlank head with
      | true =>
          obtain ⟨core, hcore⟩ := ih
          exact ⟨core, fun rest => by simpa [hhead] using hcore rest⟩
      | false => exact ⟨head :: text, fun rest => by simp [hhead]⟩

/-- Trimming does not reach a space between two words. -/
theorem trim_space (hc : isBlank c = false) (hd : isBlank d = false) (front back : List Char) :
    trim (front ++ [c] ++ ' ' :: d :: back) = trim (front ++ [c]) ++ ' ' :: trim (d :: back) := by
  obtain ⟨core, hcore⟩ := exists_dropWhile_append hc front
  obtain ⟨core', hcore'⟩ := exists_dropWhile_append hd back.reverse
  simp [trim, hcore, hcore', hc, hd]

theorem trim_ne_nil (hc : isBlank c = false) (hmem : c ∈ text) : trim text ≠ [] := by
  obtain ⟨front, back, rfl⟩ := List.append_of_mem hmem
  obtain ⟨core, hcore⟩ := exists_dropWhile_append hc front
  obtain ⟨core', hcore'⟩ := exists_dropWhile_append hc back.reverse
  simp [trim, hcore, hcore']

/-- The lines that end and begin with two words are one line where a space is between these. -/
theorem exists_contents_space (hc : isBlank c = false) (hd : isBlank d = false)
    (front back : List Char) :
    ∃ before line line' after, contents (front ++ [c]) = before ++ [line] ∧
      contents (d :: back) = line' :: after ∧
      contents (front ++ [c] ++ ' ' :: d :: back) =
        before ++ (line ++ ' ' :: line') :: after := by
  have hline : ∀ {x : Char}, isBlank x = false → ¬ (x == '\n') = true := by
    intro x hx heq
    rw [beq_iff_eq.mp heq] at hx
    exact absurd hx (by decide)
  obtain ⟨before, last, first, rest, -, hc', hfront⟩ := exists_splitOn_append '\n' front [c]
  have hword : '\n' ∉ [c] := fun hmem =>
    hline hc (beq_iff_eq.mpr (List.mem_singleton.mp hmem).symm)
  rw [List.splitOn_eq_singleton hword] at hc'
  obtain ⟨rfl, rfl⟩ := List.cons.inj hc'
  obtain ⟨first, after, hback⟩ := List.exists_cons_of_ne_nil (List.splitOn_ne_nil '\n' back)
  have hback' : (d :: back).splitOn '\n' = (d :: first) :: after := by
    rw [List.splitOn_cons_eq_if_modifyHead, if_neg (hline hd), hback, List.modifyHead_cons]
  have hspace : (' ' :: d :: back).splitOn '\n' = (' ' :: d :: first) :: after := by
    rw [List.splitOn_cons_eq_if_modifyHead, if_neg (by decide), hback', List.modifyHead_cons]
  obtain ⟨before', line, line', after', hbefore, hafter, hboth⟩ :=
    exists_splitOn_append '\n' (front ++ [c]) (' ' :: d :: back)
  obtain ⟨rfl, hlast⟩ := List.append_inj' (hfront.symm.trans hbefore) rfl
  obtain ⟨rfl, -⟩ := List.cons.inj hlast
  obtain ⟨rfl, rfl⟩ := List.cons.inj (hspace.symm.trans hafter)
  have hne : trim (last ++ [c]) ≠ [] := trim_ne_nil hc (by simp)
  have hne' : trim (d :: first) ≠ [] := trim_ne_nil hd (by simp)
  refine ⟨(before.map trim).filter (· ≠ []), trim (last ++ [c]), trim (d :: first),
    (after.map trim).filter (· ≠ []), ?_, ?_, ?_⟩
  · simp [contents, hfront, hne]
  · simp [contents, hback', hne']
  · rw [contents, hboth, List.map_append, List.map_cons, trim_space hc hd]
    simp

/-! ## Folded texts -/

structure IsTrimmed (line : List Char) : Prop where
  ne_nil : line ≠ []
  noBreak : '\n' ∉ line
  first : ∀ c ∈ line.head?, isBlank c = false
  last : ∀ c ∈ line.getLast?, isBlank c = false

theorem isTrimmed_of_mem_contents (h : rest ∈ contents text) : IsTrimmed rest := by
  obtain ⟨hmem, hne⟩ := List.mem_filter.mp h
  obtain ⟨line, hline, rfl⟩ := List.mem_map.mp hmem
  have hsub : trim line ⊆ line := by
    intro c hc
    have hdrop := (List.dropWhile_sublist _).subset (List.mem_reverse.mp hc)
    exact (List.dropWhile_sublist _).subset (List.mem_reverse.mp hdrop)
  exact ⟨by simpa using hne, fun hc => notMem_of_mem_splitOn hline (hsub hc),
    not_isBlank_head?_trim line, not_isBlank_getLast?_trim line⟩

theorem IsTrimmed.append_space (htext : IsTrimmed text) (hrest : IsTrimmed rest) :
    IsTrimmed (text ++ [' '] ++ rest) where
  ne_nil := by simp
  noBreak := by simp [htext.noBreak, hrest.noBreak]
  first := by
    rw [List.append_assoc, List.head?_append_of_ne_nil _ htext.ne_nil]
    exact htext.first
  last := by
    rw [List.getLast?_append_of_ne_nil _ hrest.ne_nil]
    exact hrest.last

/-- Trimmed lines make a trimmed line when they are joined by spaces. -/
theorem isTrimmed_intercalate {lines : List (List Char)} (hne : lines ≠ [])
    (h : ∀ line ∈ lines, IsTrimmed line) : IsTrimmed ([' '].intercalate lines) := by
  induction lines with
  | nil => exact absurd rfl hne
  | cons line lines ih =>
      obtain ⟨hline, hlines⟩ := List.forall_mem_cons.mp h
      cases lines with
      | nil => rwa [List.intercalate_singleton]
      | cons next lines =>
          rw [List.intercalate_cons_cons]
          exact hline.append_space (ih (by simp) hlines)

/-- A text that is a line as it is kept has no other contents. -/
theorem IsTrimmed.contents_eq (h : IsTrimmed text) : contents text = [text] := by
  rw [contents, List.splitOn_eq_singleton h.noBreak, List.map_singleton,
    trim_eq_self_of_ends h.first h.last]
  simp [h.ne_nil]

end Text

namespace Source

theorem ofLines_eq (text : String) :
    ofLines text = " ".intercalate ((Text.contents text.toList).map String.ofList) := rfl

theorem toList_ofLines (text : String) :
    (ofLines text).toList = [' '].intercalate (Text.contents text.toList) := by
  have hid : String.toList ∘ String.ofList = id := funext fun _ => String.toList_ofList
  rw [ofLines_eq, String.toList_intercalate, List.map_map, hid, List.map_id]
  rfl

theorem ofLines_congr {text other : String}
    (h : Text.contents text.toList = Text.contents other.toList) :
    ofLines text = ofLines other := by
  rw [ofLines_eq, ofLines_eq, h]

/-- A folded text is empty or a line as it is kept. -/
theorem isTrimmed_ofLines {text : String} (hne : Text.contents text.toList ≠ []) :
    Text.IsTrimmed (ofLines text).toList := by
  rw [toList_ofLines]
  exact Text.isTrimmed_intercalate hne fun _ => Text.isTrimmed_of_mem_contents

/-- A folded text is its own only line, so it is folded to itself. -/
theorem ofLines_ofLines (text : String) : ofLines (ofLines text) = ofLines text := by
  by_cases hne : Text.contents text.toList = []
  · rw [ofLines_eq text, hne]
    rfl
  · rw [ofLines_eq (ofLines text), (isTrimmed_ofLines hne).contents_eq]
    simp

theorem intercalate_space (before : List (List Char)) (line line' : List Char)
    (after : List (List Char)) :
    [' '].intercalate (before ++ [line] ++ line' :: after) =
      [' '].intercalate (before ++ (line ++ ' ' :: line') :: after) := by
  induction before with
  | nil => cases after <;> simp [List.intercalate_cons_cons]
  | cons first before ih =>
      rw [List.cons_append, List.cons_append, List.cons_append,
        List.intercalate_cons_of_ne_nil (by simp), List.intercalate_cons_of_ne_nil (by simp), ih]

/-- Blanks between two words are one space where there is a line feed among them. -/
theorem ofLines_gap {c d : Char} {gap : String} (hc : Text.isBlank c = false)
    (hd : Text.isBlank d = false) (hgap : Text.AllBlank gap.toList) (hbreak : '\n' ∈ gap.toList)
    (front back : String) :
    ofLines (front.push c ++ gap ++ (String.singleton d ++ back)) =
      ofLines (front.push c ++ " " ++ (String.singleton d ++ back)) := by
  obtain ⟨before, line, line', after, hfront, hback, hspace⟩ :=
    Text.exists_contents_space hc hd front.toList back.toList
  have hdivided : (front.push c ++ gap ++ (String.singleton d ++ back)).toList =
      front.toList ++ [c] ++ gap.toList ++ d :: back.toList := by simp
  have hjoined : (front.push c ++ " " ++ (String.singleton d ++ back)).toList =
      front.toList ++ [c] ++ ' ' :: d :: back.toList := by simp
  apply String.toList_injective
  rw [toList_ofLines, toList_ofLines, hdivided, hjoined, Text.contents_gap hgap hbreak, hfront,
    hback, hspace]
  exact intercalate_space before line line' after

/-- How a text is laid out in lines does not matter.  The words of the folded text are those on
the lines, one line after the other, and it is not changed by folding it again.  Texts with the
same contents are the same program, so blanks at the ends do not matter, nor does it matter
whether two words have a space between them or any blanks with a line feed. -/
theorem ofLines_ignores_layout (text : String) :
    ((tokens (ofLines text)).map Token.text =
      if Text.contents text.toList = [] then [""] else
        (Text.contents text.toList).flatMap fun line =>
          (tokens (String.ofList line)).map Token.text) ∧
    ('\n' ∉ (ofLines text).toList ∧
      (∀ c ∈ (ofLines text).toList.head?, Text.isBlank c = false) ∧
      ∀ c ∈ (ofLines text).toList.getLast?, Text.isBlank c = false) ∧
    ofLines (ofLines text) = ofLines text ∧
    (∀ other : String, Text.contents other.toList = Text.contents text.toList →
      ∀ limits, Program.ofSource (ofLines other) limits = Program.ofSource (ofLines text) limits) ∧
    (∀ front back : String, Text.AllBlank front.toList → Text.AllBlank back.toList →
      ofLines (front ++ text ++ back) = ofLines text) ∧
    ∀ (front gap back : String) (c d : Char), Text.isBlank c = false → Text.isBlank d = false →
      Text.AllBlank gap.toList → '\n' ∈ gap.toList →
        text = front.push c ++ gap ++ (String.singleton d ++ back) →
          ofLines text = ofLines (front.push c ++ " " ++ (String.singleton d ++ back)) := by
  refine ⟨?_, ?_, ofLines_ofLines text, ?_, ?_, ?_⟩
  · split
    · next hempty =>
      rw [ofLines_eq, hempty]
      rfl
    · next hne =>
      rw [ofLines_eq, map_text_tokens_intercalate_eq_flatMap (by simpa using hne), List.flatMap_map]
  · by_cases hempty : Text.contents text.toList = []
    · rw [toList_ofLines, hempty]
      simp
    · have htrimmed := isTrimmed_ofLines hempty
      exact ⟨htrimmed.noBreak, htrimmed.first, htrimmed.last⟩
  · intro other hsame limits
    rw [ofLines_congr hsame]
  · intro front back hfront hback
    apply ofLines_congr
    rw [String.toList_append, String.toList_append, Text.contents_append_blank hback,
      Text.contents_blank_append hfront]
  · rintro front gap back c d hc hd hgap hbreak rfl
    exact ofLines_gap hc hd hgap hbreak front back

/-- Carriage returns, a blank line and an indentation are nothing but a line feed, and that is
a space. -/
theorem ofLines_ignores_layout_indented :
    Program.ofSource (ofLines "inc eax\r\n\r\n\texit\n") {} =
        Program.ofSource (ofLines "inc eax\nexit") {} ∧
      ofLines "\n inc eax\t" = ofLines "inc eax" ∧
      ofLines "inc eax\r\n\texit" = ofLines "inc eax exit" := by
  have hcontents : Text.contents "inc eax\r\n\r\n\texit\n".toList =
      Text.contents "inc eax\nexit".toList := by cbv
  have hends := (ofLines_ignores_layout "inc eax").2.2.2.2.1 "\n " "\t"
    (by simp [Text.AllBlank, Text.isBlank]) (by simp [Text.AllBlank, Text.isBlank])
  have hgap := (ofLines_ignores_layout "inc eax\r\n\texit").2.2.2.2.2 "inc ea" "\r\n\t" "xit"
    'x' 'e' (by decide) (by decide) (by simp [Text.AllBlank, Text.isBlank]) (by decide)
    (by decide)
  exact ⟨(ofLines_ignores_layout "inc eax\nexit").2.2.2.1 _ hcontents {}, hends, hgap⟩

end Source

end WordMachine
