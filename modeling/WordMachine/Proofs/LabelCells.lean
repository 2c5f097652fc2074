import Mathlib
import WordMachine.Proofs.Addresses
import WordMachine.Proofs.Disassembly

/-!
# Labels in listings

The label column of a listing is read off a map from addresses to names, which is
entered label by label.  The addresses of the labels come from the label pass and those
of the rows from the words in memory, so that both meet is a fact about programs.
-/

namespace WordMachine

namespace SymbolTable

/-- Enters a label.  A name that finds others at its address is put behind them. -/
def enter (cells : Std.HashMap Word String) (l : Label) : Std.HashMap Word String :=
  cells.alter l.address fun
    | none => some l.name
    | some names => some (names ++ ", " ++ l.name)

def cells (table : SymbolTable) : Std.HashMap Word String :=
  table.labels.foldl enter ∅

/-- The cell of some names, if there are any. -/
def joined? : List String → Option String
  | [] => none
  | name :: names => some (", ".intercalate (name :: names))

/-- A further name is put behind those that are there. -/
theorem joined?_append (names : List String) (name : String) :
    joined? (names ++ [name]) = match joined? names with
      | none => some name
      | some earlier => some (earlier ++ ", " ++ name) := by
  cases names with
  | nil => simp [joined?]
  | cons first rest =>
      rw [List.cons_append, joined?, joined?, ← List.cons_append,
        String.intercalate_append_of_ne_nil (List.cons_ne_nil _ _) (List.cons_ne_nil _ _),
        String.intercalate_singleton]

theorem namesAt_append (labels : List Label) (l : Label) (address : Word) :
    namesAt ⟨labels ++ [l]⟩ address =
      namesAt ⟨labels⟩ address ++ if l.address = address then [l.name] else [] := by
  by_cases h : l.address = address <;> simp [namesAt, h]

/-- The map has the names of the labels at each address, and nothing elsewhere. -/
theorem getElem?_cells (table : SymbolTable) (address : Word) :
    table.cells[address]? = joined? (table.namesAt address) := by
  obtain ⟨labels⟩ := table
  induction labels using List.reverseRecOn with
  | nil => exact Std.HashMap.getElem?_empty
  | append_singleton labels l ih =>
      rw [cells] at ih ⊢
      rw [List.foldl_append, List.foldl_cons, List.foldl_nil, enter, namesAt_append,
        Std.HashMap.getElem?_alter]
      by_cases h : l.address = address
      · subst h
        rw [if_pos (beq_self_eq_true _), if_pos rfl, joined?_append, ih]
      · rw [if_neg (by simpa using h), if_neg h, List.append_nil, ih]

/-- The cell of a row is the one in the map, and empty where the map has none. -/
theorem getD_cells (table : SymbolTable) (row : Row) :
    table.cells.getD row.address "" = table.cell row := by
  rw [Std.HashMap.getD_eq_getD_getElem?, getElem?_cells, cell]
  cases table.namesAt row.address with
  | nil => simp [joined?]
  | cons name names => rfl

/-- A label is named at its own address only. -/
theorem name_mem_namesAt {table : SymbolTable} (hnames : table.names.Nodup) {l : Label}
    (hl : l ∈ table.labels) (address : Word) :
    l.name ∈ table.namesAt address ↔ l.address = address := by
  constructor
  · intro hname
    obtain ⟨l', hl', heq⟩ := List.mem_map.mp hname
    obtain ⟨hmem, haddress⟩ := List.mem_filter.mp hl'
    rw [← List.inj_on_of_nodup_map hnames hmem hl heq]
    exact eq_of_beq haddress
  · intro haddress
    exact List.mem_map_of_mem (List.mem_filter.mpr ⟨hl, beq_iff_eq.mpr haddress⟩)

theorem namesAt_cons (l : Label) (labels : List Label) (address : Word) :
    namesAt ⟨l :: labels⟩ address =
      (if l.address = address then [l.name] else []) ++ namesAt ⟨labels⟩ address := by
  by_cases h : l.address = address <;> simp [namesAt, h]

theorem namesAt_eq_nil {table : SymbolTable} {address : Word}
    (h : ∀ l ∈ table.labels, l.address ≠ address) : table.namesAt address = [] := by
  rw [namesAt, List.map_eq_nil_iff, List.filter_eq_nil_iff]
  intro l hl
  simpa using h l hl

/-- A label is not named at addresses that are not its own. -/
theorem flatMap_namesAt_cons {l : Label} {addresses : List Word} (h : l.address ∉ addresses)
    (labels : List Label) :
    addresses.flatMap (namesAt ⟨l :: labels⟩) = addresses.flatMap (namesAt ⟨labels⟩) := by
  apply List.flatMap_congr
  intro address haddress
  have hne : l.address ≠ address := (ne_of_mem_of_not_mem haddress h).symm
  rw [namesAt_cons, if_neg hne, List.nil_append]

/-- Labels in the order of their addresses are those at the first address, then those
at the second, and so on. -/
theorem flatMap_namesAt {table : SymbolTable} {addresses : List Word}
    (haddresses : addresses.Pairwise (· < ·))
    (hlabels : table.labels.Pairwise fun l l' => l.address ≤ l'.address)
    (hmem : ∀ l ∈ table.labels, l.address ∈ addresses) :
    addresses.flatMap table.namesAt = table.names := by
  obtain ⟨labels⟩ := table
  induction labels with
  | nil => simp [namesAt, names]
  | cons l rest ih =>
      obtain ⟨hl, hrest⟩ := List.pairwise_cons.mp hlabels
      obtain ⟨hlmem, hrestmem⟩ := List.forall_mem_cons.mp hmem
      obtain ⟨front, back, rfl⟩ := List.append_of_mem hlmem
      obtain ⟨-, hpairs, hcross⟩ := List.pairwise_append.mp haddresses
      have hfront : ∀ address ∈ front, address < l.address :=
        fun address haddress => hcross address haddress _ List.mem_cons_self
      have hback : l.address ∉ back :=
        fun hin => UInt64.lt_irrefl _ ((List.pairwise_cons.mp hpairs).1 _ hin)
      -- The later labels are behind the first, so nothing is in front of it.
      have hnone : front.flatMap (namesAt ⟨rest⟩) = [] := by
        rw [List.flatMap_eq_nil_iff]
        intro address haddress
        apply namesAt_eq_nil
        intro l' hl'
        exact (UInt64.ne_of_lt (UInt64.lt_of_lt_of_le (hfront address haddress) (hl l' hl'))).symm
      calc (front ++ l.address :: back).flatMap (namesAt ⟨l :: rest⟩)
          = l.name :: namesAt ⟨rest⟩ l.address ++ back.flatMap (namesAt ⟨rest⟩) := by
            rw [List.flatMap_append, List.flatMap_cons, namesAt_cons, if_pos rfl,
              flatMap_namesAt_cons fun hin => UInt64.lt_irrefl _ (hfront _ hin),
              flatMap_namesAt_cons hback, hnone]
            rfl
        _ = l.name :: (front ++ l.address :: back).flatMap (namesAt ⟨rest⟩) := by
            rw [List.flatMap_append, List.flatMap_cons, hnone]
            rfl
        _ = l.name :: names ⟨rest⟩ := by rw [ih hrest hrestmem]

end SymbolTable

namespace Outline

variable {outline : Outline}

/-- The row that stands where some items end is that of the next instruction. -/
theorem getElem?_listOf_append {before after : Outline} (hsplit : outline = before ++ after) :
    (Row.listOf 0 outline.image)[before.code.length]? = after.code.head?.map fun ins =>
      ⟨UInt64.ofNat before.wordCount, ins.map outline.word⟩ := by
  have hget : outline.code[before.code.length]? = after.code.head? := by
    rw [hsplit, getElem?_code_append]
  have hoffset : outline.offset before.code.length = before.wordCount := by
    rw [hsplit, offset_append]
  rw [getElem?_listOf_image, hget, hoffset]

/-- A label has the address of the row behind its declaration, or of the end if no
instruction follows. -/
theorem exists_row_of_mem_table {l : Label} (hl : l ∈ outline.table.labels) :
    ∃ before after : Outline, outline = before ++ .declaration l.name :: after ∧
      l.index = before.tokens.length ∧
      ((∃ ins, after.code.head? = some ins ∧ (Row.listOf 0 outline.image)[before.code.length]? =
          some ⟨l.address, ins.map outline.word⟩) ∨
        (after.code.head? = none ∧ l.address = UInt64.ofNat outline.wordCount)) := by
  obtain ⟨before, after, hsplit, haddress, hindex⟩ := mem_labelsFrom hl
  have hrow := getElem?_listOf_append hsplit
  rw [Nat.zero_add] at haddress hindex
  rw [code_declaration, ← haddress] at hrow
  refine ⟨before, after, hsplit, hindex, ?_⟩
  cases hhead : after.code.head? with
  | some ins =>
      rw [hhead, Option.map_some] at hrow
      exact .inl ⟨ins, rfl, hrow⟩
  | none =>
      have hcount : outline.wordCount = before.wordCount := by
        rw [hsplit, wordCount_append, wordCount_declaration, wordCount_eq_zero_of_head?_code hhead,
          Nat.add_zero]
      rw [hcount]
      exact .inr ⟨rfl, haddress⟩

/-- Rows stand in front of the end. -/
theorem toNat_address_lt {row : Row} (hsize : outline.wordCount < Word.modulus)
    (hrow : row ∈ Row.listOf 0 outline.image) : row.address.toNat < outline.wordCount := by
  have hend := (outline.contiguous_image hsize).end_le row hrow
  have hpos := row.ins.wordCount_pos
  omega

/-- The addresses of the rows, and the end behind them. -/
theorem pairwise_addresses (outline : Outline) (hsize : outline.wordCount < Word.modulus) :
    ((Row.listOf 0 outline.image).map Row.address ++
      [UInt64.ofNat outline.wordCount]).Pairwise (· < ·) := by
  refine List.pairwise_append.mpr ⟨?_, List.pairwise_singleton _ _, ?_⟩
  · exact List.pairwise_map.mpr (outline.contiguous_image hsize).pairwise_address.1
  · rintro _ haddress last hlast
    obtain ⟨row, hrow, rfl⟩ := List.mem_map.mp haddress
    rw [List.mem_singleton.mp hlast, UInt64.lt_iff_toNat_lt, Word.toNat_ofNat hsize]
    exact toNat_address_lt hsize hrow

end Outline

/-- The listing of a program shows each label of a source at the instruction behind its
declaration. -/
structure Program.ShowsLabels (p : Program) (outline : Outline) (rows : List Row) : Prop where
  /-- The label column has what the map of the cells has for the addresses. -/
  column : (Report.listingTable p.labels rows).rows.map (fun cells => cells[1]?) =
    rows.map fun row => some (p.labels.cells.getD row.address "")
  /-- A cell joins the names of the labels at its address, in order of declaration. -/
  cell : ∀ row ∈ rows, p.labels.cells.getD row.address "" = ", ".intercalate
    ((p.labels.labels.filter fun l => l.address = row.address).map Label.name)
  /-- A label is named in the row of the next instruction and in no other.  If there is no
  such instruction it stands for the end of the program and is not named. -/
  label : ∀ l ∈ p.labels.labels, ∃ before after : Outline,
    outline = before ++ .declaration l.name :: after ∧ l.index = before.tokens.length ∧
      match after.code.head? with
      | some ins => l.address.toNat < p.machine.programLength ∧
          rows[before.code.length]? = some ⟨l.address, ins.map outline.word⟩ ∧
          ∀ i row, rows[i]? = some row →
            (l.name ∈ p.labels.namesAt row.address ↔ i = before.code.length)
      | none => l.address.toNat = p.machine.programLength ∧
          ∀ row ∈ rows, l.name ∉ p.labels.namesAt row.address
  /-- The names row by row, and then those at the end, are in order of declaration. -/
  order : rows.flatMap (fun row => p.labels.namesAt row.address) ++
    p.labels.namesAt (UInt64.ofNat p.machine.programLength) = p.labels.names
  names : p.labels.names = outline.names

namespace Outline

variable {outline : Outline} {limits : Limits}

/-- Each label of an outline is shown at the instruction behind its declaration. -/
theorem showsLabels (hwf : outline.WellFormed) (hsize : outline.wordCount < Word.modulus) :
    (outline.program limits).ShowsLabels outline (Row.listOf 0 outline.image) where
  column := by
    rw [Report.listingTable, List.map_map]
    apply List.map_congr_left
    intro row _
    rw [SymbolTable.getD_cells]
    rfl
  cell := by
    intro row _
    rw [SymbolTable.getD_cells, SymbolTable.cell, SymbolTable.namesAt]
    rfl
  label := by
    intro l hl
    have hnodup : outline.table.names.Nodup := (SymbolTable.names_table outline).symm ▸ hwf.nodup
    have hnamed : ∀ address, l.name ∈ (outline.program limits).labels.namesAt address ↔
        l.address = address := SymbolTable.name_mem_namesAt hnodup hl
    obtain ⟨before, after, hsplit, hindex, ⟨ins, hhead, hrow⟩ | ⟨hhead, hlast⟩⟩ :=
      exists_row_of_mem_table hl
    all_goals
      refine ⟨before, after, hsplit, hindex, ?_⟩
      rw [hhead, programLength_program]
    · refine ⟨toNat_address_lt hsize (List.mem_of_getElem? hrow), hrow, ?_⟩
      intro i row hi
      rw [hnamed]
      constructor
      · exact fun hsame => (outline.contiguous_image hsize).index_inj hi hrow hsame.symm
      · rintro rfl
        rw [hrow] at hi
        cases hi
        rfl
    · have htoNat : l.address.toNat = outline.wordCount := by rw [hlast, Word.toNat_ofNat hsize]
      refine ⟨htoNat, ?_⟩
      intro row hrow hname
      rw [(hnamed _).mp hname] at htoNat
      exact absurd htoNat (toNat_address_lt hsize hrow).ne
  order := by
    have hlabels : outline.table.labels.Pairwise fun l l' => l.address ≤ l'.address :=
      (pairwise_labelsFrom (by rwa [Nat.zero_add]) 0).imp fun h => h.2.1
    have hmem : ∀ l ∈ outline.table.labels, l.address ∈
        (Row.listOf 0 outline.image).map Row.address ++ [UInt64.ofNat outline.wordCount] := by
      intro l hl
      obtain ⟨before, after, -, -, ⟨ins, -, hrow⟩ | ⟨-, hlast⟩⟩ := exists_row_of_mem_table hl
      · exact List.mem_append_left _ (List.mem_map_of_mem (List.mem_of_getElem? hrow))
      · exact List.mem_append_right _ (List.mem_singleton.mpr hlast)
    have hjoin := SymbolTable.flatMap_namesAt (outline.pairwise_addresses hsize) hlabels hmem
    rwa [List.flatMap_append, List.flatMap_map, List.flatMap_singleton,
      ← programLength_program outline limits] at hjoin
  names := SymbolTable.names_table outline

end Outline

/-- Listings show the labels of every program. -/
theorem Program.listing_shows_labels {source : String} {limits : Limits} {p : Program}
    (hsize : limits.memorySize < Word.modulus) (h : Program.ofSource source limits = .ok p) :
    ∃ (outline : Outline) (rows : List Row), outline.Spells source ∧ outline.WellFormed ∧
      p.machine.listing = .ok rows ∧ p.ShowsLabels outline rows := by
  obtain ⟨outline, hspells, hwf, hfits, rfl⟩ := ofSource_eq_ok_iff.mp h
  exact ⟨outline, Row.listOf 0 outline.image, hspells, hwf, Outline.listing_program hfits hsize,
    Outline.showsLabels hwf (Nat.lt_of_le_of_lt hfits hsize)⟩

/-- The listing of the loop shows `again` at the first row and `done` at the last. -/
theorem Program.listing_shows_labels_loop :
    ∃ (outline : Outline) (rows : List Row), outline.Spells Source.loop ∧ outline.WellFormed ∧
      (Outline.loop.program { memorySize := 16 }).machine.listing = .ok rows ∧
      (Outline.loop.program { memorySize := 16 }).ShowsLabels outline rows :=
  Program.listing_shows_labels (by decide) Outline.loop_ofSource

end WordMachine
