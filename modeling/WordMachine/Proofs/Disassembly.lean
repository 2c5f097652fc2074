import Mathlib
import WordMachine.Proofs.Decoding
import WordMachine.Proofs.Unlabelled
import WordMachine.Report

/-!
# Listings of programs

A walk over a loaded program finds the boundary of each instruction and ends at the
last one.  The texts that it shows are the source of the same machine: all values are
numerals there and no label is left.
-/

namespace WordMachine

namespace Row

/-- The rows of instructions that stand one behind the other. -/
def listOf : Nat → List (Instruction Word) → List Row
  | _, [] => []
  | address, ins :: rest => ⟨UInt64.ofNat address, ins⟩ :: listOf (address + ins.wordCount) rest

/-- Whether rows lead from one address to another, each behind the words of the row
before. -/
def Contiguous : Nat → Nat → List Row → Prop
  | first, last, [] => first = last
  | first, last, row :: rest =>
    row.address.toNat = first ∧ Contiguous (first + row.ins.wordCount) last rest

@[simp]
theorem map_ins_listOf (address : Nat) (code : List (Instruction Word)) :
    (listOf address code).map ins = code := by
  induction code generalizing address with
  | nil => rfl
  | cons ins rest ih => rw [listOf, List.map_cons, ih]

theorem length_listOf (address : Nat) (code : List (Instruction Word)) :
    (listOf address code).length = code.length := by
  rw [← List.length_map ins, map_ins_listOf]

theorem getElem?_listOf (address : Nat) (code : List (Instruction Word)) (i : Nat) :
    (listOf address code)[i]? = code[i]?.map fun ins =>
      ⟨UInt64.ofNat (address + ((code.take i).map Instruction.wordCount).sum), ins⟩ := by
  induction code generalizing address i with
  | nil => rfl
  | cons ins rest ih =>
      cases i with
      | zero => rfl
      | succ i =>
          rw [listOf, List.getElem?_cons_succ, ih, List.getElem?_cons_succ, List.take_succ_cons,
            List.map_cons, List.sum_cons, Nat.add_assoc]

theorem encodeAll_cons (ins : Instruction Word) (rest : List (Instruction Word)) :
    Instruction.encodeAll (ins :: rest) = ins.encode ++ Instruction.encodeAll rest := rfl

/-- Rows of instructions one behind the other have no gaps. -/
theorem contiguous_listOf {address : Nat} {code : List (Instruction Word)}
    (hfits : address + (Instruction.encodeAll code).length < Word.modulus) :
    Contiguous address (address + (Instruction.encodeAll code).length)
      (listOf address code) := by
  induction code generalizing address with
  | nil => rfl
  | cons ins rest ih =>
      rw [encodeAll_cons, List.length_append, Instruction.length_encode, ← Nat.add_assoc]
        at hfits ⊢
      exact ⟨Word.toNat_ofNat (by omega), ih hfits⟩

theorem Contiguous.le {first last : Nat} {rows : List Row}
    (h : Contiguous first last rows) : first ≤ last := by
  induction rows generalizing first with
  | nil => exact Nat.le_of_eq h
  | cons row rest ih => exact (Nat.le_add_right _ _).trans (ih h.2)

/-- The words of a row stand in front of the end. -/
theorem Contiguous.end_le {first last : Nat} {rows : List Row} (h : Contiguous first last rows) :
    ∀ row ∈ rows, row.address.toNat + row.ins.wordCount ≤ last := by
  induction rows generalizing first with
  | nil => exact List.forall_mem_nil _
  | cons row rest ih =>
      obtain ⟨hfirst, hrest⟩ := h
      refine List.forall_mem_cons.mpr ⟨?_, ih hrest⟩
      rw [hfirst]
      exact hrest.le

/-- Rows without gaps have increasing addresses. -/
theorem Contiguous.pairwise_address {first last : Nat} {rows : List Row}
    (h : Contiguous first last rows) :
    rows.Pairwise (fun row row' => row.address < row'.address) ∧
      ∀ row ∈ rows, first ≤ row.address.toNat := by
  induction rows generalizing first with
  | nil => exact ⟨.nil, by simp⟩
  | cons row rest ih =>
      obtain ⟨hfirst, hrest⟩ := h
      obtain ⟨hpairwise, hle⟩ := ih hrest
      have hpos := row.ins.wordCount_pos
      refine ⟨.cons ?_ hpairwise, ?_⟩
      · intro row' hrow'
        have hle' := hle row' hrow'
        rw [UInt64.lt_iff_toNat_lt]
        omega
      · rintro row' (_ | ⟨_, hrow'⟩)
        · exact hfirst.ge
        · have hle' := hle row' hrow'
          omega

theorem Contiguous.index_inj {first last i j : Nat} {rows : List Row} {row row' : Row}
    (h : Contiguous first last rows) (hi : rows[i]? = some row) (hj : rows[j]? = some row')
    (haddress : row.address = row'.address) : i = j := by
  obtain ⟨hi', rfl⟩ := List.getElem?_eq_some_iff.mp hi
  obtain ⟨hj', rfl⟩ := List.getElem?_eq_some_iff.mp hj
  have hlt := List.pairwise_iff_getElem.mp h.pairwise_address.1
  rcases Nat.lt_trichotomy i j with hij | hij | hij
  · exact absurd haddress (UInt64.ne_of_lt (hlt i j hi' hj' hij))
  · exact hij
  · exact absurd haddress.symm (UInt64.ne_of_lt (hlt j i hj' hi' hij))

/-- The walk over the words of some instructions gives these instructions. -/
theorem listFrom_of_prefix {memory : Memory} (hsize : memory.size ≤ Word.modulus)
    {address : Nat} {code : List (Instruction Word)}
    (hwords : Instruction.encodeAll code <+: memory.toList.drop address) :
    listFrom memory (address + (Instruction.encodeAll code).length) address =
      .ok (listOf address code) := by
  induction code generalizing address with
  | nil =>
      rw [listFrom, if_neg (by simp [Instruction.encodeAll])]
      rfl
  | cons ins rest ih =>
      have hpos := ins.wordCount_pos
      have hroom : (Instruction.encodeAll (ins :: rest)).length ≤ memory.size - address := by
        simpa using hwords.length_le
      rw [encodeAll_cons, List.length_append, Instruction.length_encode] at hroom ⊢
      have haddress : (UInt64.ofNat address).toNat = address := Word.toNat_ofNat (by omega)
      have hread : Instruction.ofMemory memory (UInt64.ofNat address) = .ok ins := by
        apply Instruction.ofMemory_of_prefix hsize
        rw [haddress]
        exact (List.prefix_append _ _).trans hwords
      have hrest : Instruction.encodeAll rest <+:
          memory.toList.drop (address + ins.wordCount) := by
        have hdrop := hwords.drop ins.wordCount
        rwa [encodeAll_cons, ← Instruction.length_encode, List.drop_left, List.drop_drop,
          Instruction.length_encode] at hdrop
      rw [listFrom, if_pos (by omega), hread, ok_bind, ← Nat.add_assoc, ih hrest]
      rfl

/-- The walk has read the instruction of its first row where it started. -/
theorem listFrom_eq_ok_cons {memory : Memory} {length address : Nat} {row : Row}
    {rest : List Row} (h : listFrom memory length address = .ok (row :: rest)) :
    address < length ∧ row.address = UInt64.ofNat address ∧
      Instruction.ofMemory memory row.address = .ok row.ins ∧
      listFrom memory length (address + row.ins.wordCount) = .ok rest := by
  rw [listFrom] at h
  split at h
  · next hlt =>
    obtain ⟨ins, hins, h⟩ := bind_eq_ok_iff.mp h
    obtain ⟨later, hlater, hrows⟩ := bind_eq_ok_iff.mp h
    cases hrows
    exact ⟨hlt, rfl, hins, hlater⟩
  · cases h

/-- A row shows what stands at its address. -/
theorem ofMemory_of_mem_listFrom {memory : Memory} {length address : Nat} {rows : List Row}
    (h : listFrom memory length address = .ok rows) :
    ∀ row ∈ rows, Instruction.ofMemory memory row.address = .ok row.ins := by
  induction rows generalizing address with
  | nil => exact List.forall_mem_nil _
  | cons row rest ih =>
      obtain ⟨-, -, hins, hrest⟩ := listFrom_eq_ok_cons h
      exact List.forall_mem_cons.mpr ⟨hins, ih hrest⟩

end Row

/-! ## The text of the rows -/

namespace Outline

/-- The instructions of an image as source text without labels. -/
def ofImage (code : List (Instruction Word)) : Outline :=
  code.map fun ins => .instruction (ins.map fun w => .literal w.text)

theorem ofImage_eq_ofNumerals (code : List (Instruction Word)) :
    ofImage code = ofNumerals (code.map (Instruction.map Word.text)) := by
  rw [ofImage, ofNumerals, List.map_map]
  congr 1
  funext ins
  rw [Function.comp_apply, Instruction.map_map]
  rfl

theorem names_ofImage (code : List (Instruction Word)) : (ofImage code).names = [] := by
  rw [ofImage_eq_ofNumerals, names_ofNumerals]

theorem table_ofImage (code : List (Instruction Word)) : (ofImage code).table = {} := by
  rw [ofImage_eq_ofNumerals, table_ofNumerals]

theorem image_ofImage (code : List (Instruction Word)) : (ofImage code).image = code := by
  rw [ofImage_eq_ofNumerals, image_ofNumerals, List.map_map]
  apply List.map_id''
  intro ins
  rw [Function.comp_apply, Instruction.map_map]
  exact Instruction.map_eq_self fun w _ => Word.ofNumeral_text w

theorem wellFormed_ofImage {code : List (Instruction Word)} (h : ∀ ins ∈ code, ins.Named) :
    (ofImage code).WellFormed := by
  rw [ofImage_eq_ofNumerals]
  apply wellFormed_ofNumerals
  intro ins hins
  obtain ⟨source, hsource, rfl⟩ := List.mem_map.mp hins
  refine ⟨(Instruction.named_map _ _).mpr (h source hsource), ?_⟩
  intro s hs
  rw [Instruction.values_map] at hs
  obtain ⟨w, _, rfl⟩ := List.mem_map.mp hs
  exact Word.isNumeral_text w

theorem named_of_mem_image {outline : Outline} (hwf : outline.WellFormed) :
    ∀ ins ∈ outline.image, ins.Named := by
  intro ins hins
  obtain ⟨source, hsource, rfl⟩ := List.mem_map.mp hins
  exact (Instruction.named_map _ _).mpr (hwf.instruction hsource).1

/-- The texts of the rows spell the instructions again. -/
theorem ofImage_spells {code : List (Instruction Word)} (hne : code ≠ [])
    (h : ∀ ins ∈ code, ins.Named) :
    (ofImage code).Spells (" ".intercalate (code.map Instruction.text)) := by
  have htexts : (ofImage code).map (fun item => " ".intercalate item.tokens) =
      code.map Instruction.text := by
    rw [ofImage, List.map_map]
    apply List.map_congr_left
    intro ins _
    rw [Function.comp_apply, Item.tokens, Instruction.tokens_map]
    rfl
  rw [← htexts]
  apply spells_intercalate
  · simpa [ofImage] using hne
  · exact wellFormed_ofImage h
  · rw [names_ofImage]
    exact List.forall_mem_nil _

end Outline

namespace Outline

variable {outline : Outline} {limits : Limits}

theorem contiguous_image (outline : Outline) (hsize : outline.wordCount < Word.modulus) :
    Row.Contiguous 0 outline.wordCount (Row.listOf 0 outline.image) := by
  have hrows : Row.Contiguous 0 (0 + (Instruction.encodeAll outline.image).length)
      (Row.listOf 0 outline.image) := Row.contiguous_listOf (by
        rwa [Nat.zero_add, length_encodeAll_image])
  rwa [Nat.zero_add, length_encodeAll_image] at hrows

/-- The listing of a program has a row for each instruction of its outline. -/
theorem listing_program (hfits : outline.wordCount ≤ limits.memorySize)
    (hsize : limits.memorySize < Word.modulus) :
    (outline.program limits).machine.listing = .ok (Row.listOf 0 outline.image) := by
  have hmemory : (outline.program limits).machine.memory.size ≤ Word.modulus := by
    rw [size_memory_program hfits]
    exact hsize.le
  have hwords : Instruction.encodeAll outline.image <+:
      (outline.program limits).machine.memory.toList.drop 0 := by
    rw [List.drop_zero, toList_memory_program]
    exact List.prefix_append _ _
  have hlist := Row.listFrom_of_prefix hmemory hwords
  rwa [length_encodeAll_image, Nat.zero_add, ← programLength_program outline limits] at hlist

theorem getElem?_listOf_image (outline : Outline) (i : Nat) :
    (Row.listOf 0 outline.image)[i]? = outline.code[i]?.map fun ins =>
      ⟨UInt64.ofNat (outline.offset i), ins.map outline.word⟩ := by
  rw [Row.getElem?_listOf, image, ← List.map_take, List.getElem?_map, Option.map_map, List.map_map,
    Nat.zero_add]
  simp [offset, Function.comp_def]

/-- The instructions of an image are the source of the same machine. -/
theorem ofSource_ofImage (hwf : outline.WellFormed)
    (hfits : outline.wordCount ≤ limits.memorySize) (hne : outline.image ≠ []) :
    Program.ofSource (" ".intercalate (outline.image.map Instruction.text)) limits =
      .ok ⟨(outline.program limits).machine, {}⟩ := by
  have hnamed := named_of_mem_image hwf
  apply (ofSource_eq_ok_iff_of_spells (ofImage_spells hne hnamed)
    (wellFormed_ofImage hnamed)).mpr
  constructor
  · calc (ofImage outline.image).wordCount
        = (Instruction.encodeAll outline.image).length := by
          rw [← length_encodeAll_image, image_ofImage]
      _ = outline.wordCount := length_encodeAll_image outline
      _ ≤ limits.memorySize := hfits
  · rw [program, image_ofImage, table_ofImage]
    rfl

end Outline

/-- The listing of a program is its disassembly.  The rows cover the program without
gaps, their words are those in memory, and their texts are the source of the same
machine. -/
theorem Program.listing_inverts {source : String} {limits : Limits} {p : Program}
    (hsize : limits.memorySize < Word.modulus)
    (h : Program.ofSource source limits = .ok p) :
    ∃ rows, p.machine.listing = .ok rows ∧
      (∃ text, Report.ofListing source limits = ⟨text, .ok ()⟩) ∧
      Row.Contiguous 0 p.machine.programLength rows ∧
      rows.flatMap (fun row => row.ins.encode) =
        p.machine.memory.toList.take p.machine.programLength ∧
      (rows ≠ [] →
        Program.ofSource (" ".intercalate (rows.map fun row => row.ins.text)) limits =
          .ok ⟨p.machine, {}⟩) := by
  obtain ⟨outline, -, hwf, hfits, rfl⟩ := ofSource_eq_ok_iff.mp h
  have hlisting := Outline.listing_program hfits hsize
  have hlength : (Instruction.encodeAll outline.image).length = outline.wordCount :=
    outline.length_encodeAll_image
  have htexts : (Row.listOf 0 outline.image).map (fun row => row.ins.text) =
      outline.image.map Instruction.text :=
    calc (Row.listOf 0 outline.image).map (fun row => row.ins.text)
        = ((Row.listOf 0 outline.image).map Row.ins).map Instruction.text := by
          rw [List.map_map]
          rfl
      _ = outline.image.map Instruction.text := by rw [Row.map_ins_listOf]
  refine ⟨Row.listOf 0 outline.image, hlisting, ?_, ?_, ?_, ?_⟩
  · simp only [Report.ofListing, h, hlisting]
    exact ⟨_, rfl⟩
  · have hrows : Row.Contiguous 0 (0 + (Instruction.encodeAll outline.image).length)
        (Row.listOf 0 outline.image) := Row.contiguous_listOf (by omega)
    rwa [hlength, Nat.zero_add, ← outline.programLength_program limits] at hrows
  · rw [Outline.programLength_program, Outline.toList_memory_program, ← hlength, List.take_left]
    have hcode := congrArg Instruction.encodeAll (Row.map_ins_listOf 0 outline.image)
    rwa [Instruction.encodeAll, List.flatMap_map] at hcode
  · intro hrows
    rw [htexts]
    apply Outline.ofSource_ofImage hwf hfits
    intro hempty
    rw [hempty] at hrows
    exact hrows rfl

/-- The listing of the loop is a source text of the same machine. -/
theorem Program.listing_inverts_loop :
    ∃ rows, (Outline.loop.program { memorySize := 16 }).machine.listing = .ok rows ∧
      Program.ofSource (" ".intercalate (rows.map fun row => row.ins.text))
        { memorySize := 16 } = .ok ⟨(Outline.loop.program { memorySize := 16 }).machine, {}⟩ := by
  obtain ⟨rows, hrows, -, -, hwords, hsource⟩ :=
    Program.listing_inverts (by decide) Outline.loop_ofSource
  refine ⟨rows, hrows, hsource ?_⟩
  intro hempty
  rw [hempty] at hwords
  exact absurd hwords (by decide +kernel)

end WordMachine
