import Mathlib
import WordMachine.Text.BoxTable
import WordMachine.Proofs.Layout

/-!
# Reading drawn tables

A drawn table consists of whole lines that each begin with a part of its box, whatever is in its
cells.  The cells stand between bars, so a row of plain cells is found again on its line.
-/

namespace WordMachine.Text

variable {c : Char} {line cell : List Char}

/-- A list that is joined holds nothing that neither its pieces nor the separator hold. -/
theorem notMem_intercalate {A : Type} {c : A} {separator : List A} {pieces : List (List A)}
    (hc : c ∉ separator) (hpieces : ∀ piece ∈ pieces, c ∉ piece) :
    c ∉ separator.intercalate pieces := by
  induction pieces with
  | nil => simp
  | cons piece rest ih =>
      obtain ⟨hpiece, hrest⟩ := List.forall_mem_cons.mp hpieces
      cases rest with
      | nil => simpa using hpiece
      | cons next rest =>
          rw [List.intercalate_cons_cons]
          simp [hpiece, hc, ih hrest]

/-- The cells on a line of a table, without the blanks around them. -/
def cellsOf (line : List Char) : List (List Char) :=
  ((line.splitOn '│').drop 1).dropLast.map trim

/-- A cell that takes one line and holds neither a bar nor blanks at its ends. -/
structure IsPlain (cell : List Char) : Prop where
  unbroken : '\n' ∉ cell
  unbarred : '│' ∉ cell
  trimmed : trim cell = cell

theorem isPlain_of_visible (hblank : cell.any isBlank = false) (hbar : '│' ∉ cell) :
    IsPlain cell where
  unbroken hmem := absurd (List.any_eq_false.mp hblank _ hmem) (by decide)
  unbarred := hbar
  trimmed := by
    have hvisible : ∀ c ∈ cell, isBlank c = false := by simpa using hblank
    exact trim_eq_self_of_ends (fun c hc => hvisible c (List.mem_of_head? hc))
      fun c hc => hvisible c (List.mem_of_getLast? hc)

namespace BoxTable

/-- A whole line that begins with a part of a box. -/
structure IsDrawn (line : List Char) : Prop where
  edge : ∃ c ∈ ['┌', '│', '├', '└'], line.head? = some c
  unbroken : '\n' ∉ line

variable {table : BoxTable} {widths : List Nat} {pieces : List (List Char)} {row : List String}

theorem isDrawn_rule {left crossing right : Char} (hleft : left ∈ ['┌', '│', '├', '└'])
    (hmarks : '\n' ∉ [left, crossing, right]) (widths : List Nat) :
    IsDrawn (rule left crossing right widths) where
  edge := ⟨left, hleft, rfl⟩
  unbroken := by
    have hpieces : ∀ piece ∈ widths.map fun w => List.replicate (w + 2) '─', '\n' ∉ piece := by
      intro piece hpiece
      obtain ⟨w, -, rfl⟩ := List.mem_map.mp hpiece
      simp
    have hcrossing : '\n' ∉ [crossing].intercalate
        (widths.map fun w => List.replicate (w + 2) '─') :=
      notMem_intercalate (by simp_all) hpieces
    simp_all [rule]

/-- The pieces of a line, filled up to the widths of their columns. -/
def padded (widths : List Nat) (pieces : List (List Char)) : List (List Char) :=
  List.zipWith (fun w piece => ' ' :: padTo w piece ++ [' ']) widths pieces

theorem notMem_of_mem_padded (hc : c ≠ ' ') (hpieces : ∀ piece ∈ pieces, c ∉ piece)
    (h : cell ∈ padded widths pieces) : c ∉ cell := by
  rw [padded, ← List.map_uncurry_zip_eq_zipWith] at h
  obtain ⟨⟨w, piece⟩, hpair, rfl⟩ := List.mem_map.mp h
  simpa [Function.uncurry, padTo, hc] using hpieces piece (List.of_mem_zip hpair).2

theorem isDrawn_textLine (widths : List Nat) (hpieces : ∀ piece ∈ pieces, '\n' ∉ piece) :
    IsDrawn (textLine widths pieces) where
  edge := ⟨'│', by decide, rfl⟩
  unbroken := by
    have hcells : '\n' ∉ ['│'].intercalate (padded widths pieces) :=
      notMem_intercalate (by decide) fun cell => notMem_of_mem_padded (by decide) hpieces
    change '\n' ∉ '│' :: ['│'].intercalate (padded widths pieces) ++ ['│']
    simp [hcells]

theorem isDrawn_of_mem_rowLines (h : line ∈ rowLines widths row) : IsDrawn line := by
  obtain ⟨k, -, rfl⟩ := List.mem_map.mp h
  apply isDrawn_textLine
  intro piece hpiece
  rw [List.map_map] at hpiece
  obtain ⟨cell, -, rfl⟩ := List.mem_map.mp hpiece
  change '\n' ∉ (cellLines cell).getD k []
  rw [List.getD_eq_getElem?_getD]
  cases hget : (cellLines cell)[k]? with
  | none => exact List.not_mem_nil
  | some piece => exact notMem_of_mem_splitOn (List.mem_of_getElem? hget)

/-- Each line of a drawn table is a line of its box. -/
theorem isDrawn_of_mem_lines (h : line ∈ table.lines) : IsDrawn line := by
  simp only [lines, List.cons_append, List.append_assoc, List.mem_cons, List.mem_append,
    List.mem_flatMap] at h
  rcases h with rfl | hheader | rfl | ⟨row, -, hrow⟩ | hbottom
  · exact isDrawn_rule (by decide) (by decide) _
  · exact isDrawn_of_mem_rowLines hheader
  · exact isDrawn_rule (by decide) (by decide) _
  · exact isDrawn_of_mem_rowLines hrow
  · split at hbottom
    · exact absurd hbottom List.not_mem_nil
    · rw [List.mem_singleton.mp hbottom]
      exact isDrawn_rule (by decide) (by decide) _

/-- A table and a line feed behind it are its lines with a line feed behind each. -/
theorem render_append (table : BoxTable) :
    table.render ++ "\n" =
      String.join (table.lines.map fun line => String.ofList line ++ "\n") := by
  have hjoin : ∀ lines : List (List Char), lines ≠ [] →
      "\n".intercalate (lines.map String.ofList) ++ "\n" =
        String.join (lines.map fun line => String.ofList line ++ "\n") := by
    intro lines hne
    induction lines with
    | nil => exact absurd rfl hne
    | cons line rest ih =>
        cases rest with
        | nil => simp
        | cons next rest =>
            rw [List.map_cons, String.intercalate_cons_of_ne_nil (by simp), String.append_assoc,
              ih (by simp), ← String.join_cons, List.map_cons]
            rfl
  exact hjoin _ (by simp [lines])

/-- Trimming takes off again what a cell was filled up with. -/
theorem map_trim_padded (hlength : pieces.length = widths.length)
    (hplain : ∀ piece ∈ pieces, IsPlain piece) : (padded widths pieces).map trim = pieces := by
  have hspaces : ∀ n, AllBlank (List.replicate n ' ') := by
    intro n c hc
    rw [List.eq_of_mem_replicate hc]
    rfl
  have hspace : AllBlank [' '] := hspaces 1
  induction pieces generalizing widths with
  | nil => simp [padded]
  | cons piece rest ih =>
      obtain ⟨w, widths, rfl⟩ := List.exists_cons_of_length_eq_add_one hlength.symm
      obtain ⟨hpiece, hrest⟩ := List.forall_mem_cons.mp hplain
      have hcell : trim ([' '] ++ (piece ++ List.replicate (w - width piece) ' ') ++ [' ']) =
          piece := by
        rw [trim_append_blank hspace, trim_blank_append hspace, trim_append_blank (hspaces _),
          hpiece.trimmed]
      exact congrArg₂ List.cons hcell (ih (Nat.succ.inj hlength) hrest)

/-- The cells of a plain row are read back from its line. -/
theorem cellsOf_textLine (hne : pieces ≠ []) (hlength : pieces.length = widths.length)
    (hplain : ∀ piece ∈ pieces, IsPlain piece) : cellsOf (textLine widths pieces) = pieces := by
  have hbars : ∀ cell ∈ padded widths pieces, '│' ∉ cell := fun cell =>
    notMem_of_mem_padded (by decide) fun piece hpiece => (hplain piece hpiece).unbarred
  have hcells : padded widths pieces ≠ [] := by
    intro hempty
    have hnone := map_trim_padded hlength hplain
    rw [hempty] at hnone
    exact hne hnone.symm
  have hsplit : (textLine widths pieces).splitOn '│' = [] :: padded widths pieces ++ [[]] := by
    change ([] ++ '│' :: (['│'].intercalate (padded widths pieces) ++ '│' :: [])).splitOn '│' = _
    rw [List.splitOn, List.splitOnP_append_cons _ _ rfl, List.splitOnP_append_cons _ _ rfl,
      ← List.splitOn, ← List.splitOn, List.splitOn_intercalate '│' hbars hcells]
    rfl
  rw [cellsOf, hsplit, List.cons_append, List.drop_one, List.tail_cons, List.dropLast_concat,
    map_trim_padded hlength hplain]

theorem length_columnWidths (h : ∀ row ∈ table.rows, row.length = table.header.length) :
    table.columnWidths.length = table.header.length := by
  have hfold : ∀ (rows : List (List String)) (widths : List Nat),
      (∀ row ∈ rows, row.length = widths.length) →
        (rows.foldl (fun widths row => List.zipWith max widths (row.map cellWidth))
          widths).length = widths.length := by
    intro rows
    induction rows with
    | nil => exact fun _ _ => rfl
    | cons row rest ih =>
        intro widths hrows
        obtain ⟨hrow, hrest⟩ := List.forall_mem_cons.mp hrows
        have hnext : (List.zipWith max widths (row.map cellWidth)).length = widths.length := by
          simp [hrow]
        rw [List.foldl_cons, ih _ (by rwa [hnext]), hnext]
  rw [columnWidths, hfold _ _ (by simpa using h), List.length_map]

/-- A plain row takes one line. -/
theorem rowLines_of_plain (widths : List Nat) (hplain : ∀ cell ∈ row, IsPlain cell.toList) :
    rowLines widths row = [textLine widths (row.map String.toList)] := by
  have hcells : row.map cellLines = row.map fun cell => [cell.toList] :=
    List.map_congr_left fun cell hcell => List.splitOn_eq_singleton (hplain cell hcell).unbroken
  have hheight : ∀ row : List String,
      ((row.map fun cell => [cell.toList]).map List.length).foldl max 1 = 1 := by
    intro row
    induction row with
    | nil => rfl
    | cons cell rest ih => exact ih
  have hpieces : (row.map fun cell => [cell.toList]).map (fun ls => ls.getD 0 []) =
      row.map String.toList := List.map_map
  rw [rowLines, hcells, hheight, List.range_one, List.map_singleton, hpieces]

/-- A table whose rows are as long as its header, with plain cells. -/
structure IsPlain (table : BoxTable) : Prop where
  header_ne_nil : table.header ≠ []
  rows_ne_nil : table.rows ≠ []
  length_eq : ∀ row ∈ table.rows, row.length = table.header.length
  header_plain : ∀ cell ∈ table.header, Text.IsPlain cell.toList
  rows_plain : ∀ row ∈ table.rows, ∀ cell ∈ row, Text.IsPlain cell.toList

/-- A plain table is read back from the lines that it is drawn with. -/
theorem IsPlain.exists_lines (h : table.IsPlain) :
    ∃ top heading middle body bottom, table.lines = top :: heading :: middle :: body ++ [bottom] ∧
      cellsOf heading = table.header.map String.toList ∧
      body.map cellsOf = table.rows.map fun row => row.map String.toList := by
  have hwidths := length_columnWidths h.length_eq
  have hread : ∀ row : List String, row.length = table.header.length →
      (∀ cell ∈ row, Text.IsPlain cell.toList) →
        cellsOf (textLine table.columnWidths (row.map String.toList)) = row.map String.toList := by
    intro row hlength hplain
    have hne : row ≠ [] := by
      rintro rfl
      exact h.header_ne_nil (List.eq_nil_of_length_eq_zero hlength.symm)
    apply cellsOf_textLine
    · simpa using hne
    · rw [List.length_map, hlength, hwidths]
    · simpa using hplain
  obtain ⟨body, hbody⟩ : ∃ body, body =
      table.rows.map fun row => textLine table.columnWidths (row.map String.toList) := ⟨_, rfl⟩
  have hlines : table.rows.flatMap (rowLines table.columnWidths) = body := by
    rw [hbody, ← List.flatMap_pure_eq_map]
    exact List.flatMap_congr fun row hrow => rowLines_of_plain _ (h.rows_plain row hrow)
  refine ⟨rule '┌' '┬' '┐' table.columnWidths, _, rule '├' '┼' '┤' table.columnWidths, body,
    rule '└' '┴' '┘' table.columnWidths, ?_, hread _ rfl h.header_plain, ?_⟩
  · rw [lines, rowLines_of_plain _ h.header_plain, hlines,
      if_neg (by simpa using h.rows_ne_nil)]
    rfl
  · rw [hbody, List.map_map]
    exact List.map_congr_left fun row hrow =>
      hread row (h.length_eq row hrow) (h.rows_plain row hrow)

end BoxTable

end WordMachine.Text
