import Mathlib
import WordMachine.Proofs.SourceErrors

/-!
# Capacity

What the instructions of a stream are does not depend on the size of memory.  They are read one
behind the other up to the end of the stream or to the first that cannot be read.  Memory only
decides whether reading gets that far: it is given up behind the first instruction that ends
beyond the last cell.
-/

namespace WordMachine

namespace Instruction

/-- The instructions at the start of a stream, and why there is no further one before its
end. -/
structure Reading where
  code : List (Instruction Word)
  failure : Option SourceError
  deriving DecidableEq, Repr

namespace Reading

def cons (ins : Instruction Word) (reading : Reading) : Reading :=
  { reading with code := ins :: reading.code }

def outcome (reading : Reading) : Except SourceError (List (Instruction Word)) :=
  match reading.failure with
  | none => .ok reading.code
  | some cause => .error cause

theorem outcome_cons (ins : Instruction Word) (reading : Reading) :
    (reading.cons ins).outcome = reading.outcome.map (ins :: ·) := by
  rw [outcome, outcome, cons]
  cases reading.failure <;> rfl

end Reading

/-- Reads a stream as if memory had no end. -/
def readAll : List Token → Reading
  | [] => ⟨[], none⟩
  | t :: rest =>
    match ofWindow ⟨t, rest⟩ with
    | .error cause => ⟨[], some cause⟩
    | .ok ins => (readAll (rest.drop (ins.tokenCount - 1))).cons ins
termination_by stream => stream.length

/-- The word totals of the parts of some code, behind `used` words, that go beyond memory. -/
def overruns (capacity used : Nat) (code : List (Instruction Word)) : Set Nat :=
  {n | capacity < n ∧ ∃ front, front <+: code ∧ n = used + (encodeAll front).length}

variable {capacity used : Nat} {stream : List Token} {code : List (Instruction Word)}

theorem length_encodeAll_cons (ins : Instruction Word) (code : List (Instruction Word)) :
    (encodeAll (ins :: code)).length = ins.wordCount + (encodeAll code).length := by
  simp [encodeAll]

/-- Words that are in memory are no overrun. -/
theorem overruns_cons (hused : used ≤ capacity) (ins : Instruction Word)
    (code : List (Instruction Word)) :
    overruns capacity used (ins :: code) = overruns capacity (used + ins.wordCount) code := by
  ext n
  constructor
  · rintro ⟨hover, front, hfront, hn⟩
    cases front with
    | nil =>
        simp [encodeAll] at hn
        omega
    | cons first front =>
        obtain ⟨rfl, hrest⟩ := List.cons_prefix_cons.mp hfront
        refine ⟨hover, front, hrest, ?_⟩
        rw [hn, length_encodeAll_cons, Nat.add_assoc]
  · rintro ⟨hover, front, hfront, hn⟩
    refine ⟨hover, ins :: front, List.cons_prefix_cons.mpr ⟨rfl, hfront⟩, ?_⟩
    rw [hn, length_encodeAll_cons, Nat.add_assoc]

/-- Where memory is exceeded from the start, that is the least total beyond it. -/
theorem isLeast_overruns (hover : capacity < used) (code : List (Instruction Word)) :
    IsLeast (overruns capacity used code) used := by
  constructor
  · exact ⟨hover, [], List.nil_prefix, rfl⟩
  · rintro n ⟨_, _, _, hn⟩
    exact hn ▸ Nat.le_add_right used _

/-- Where all instructions fit in memory, reading ends as the stream does. -/
theorem listOfTokens_of_fits
    (hfits : used + (encodeAll (readAll stream).code).length ≤ capacity) :
    listOfTokens capacity used stream = (readAll stream).outcome := by
  fun_induction readAll stream generalizing used with
  | case1 => rw [listOfTokens]; rfl
  | case2 t rest cause hread => exact listOfTokens_cons_of_error hread
  | case3 t rest ins hread ih =>
      rw [Reading.cons, length_encodeAll_cons, ← Nat.add_assoc] at hfits
      rw [listOfTokens_cons_of_fits hread (by omega), ih hfits, Reading.outcome_cons]

/-- Where they do not, reading is given up at the least total that is too large. -/
theorem listOfTokens_of_overrun (hused : used ≤ capacity)
    (hover : capacity < used + (encodeAll (readAll stream).code).length) :
    ∃ required, listOfTokens capacity used stream = .error (.outOfMemory required capacity) ∧
      IsLeast (overruns capacity used (readAll stream).code) required := by
  fun_induction readAll stream generalizing used with
  | case1 => exact absurd hover (Nat.not_lt.mpr hused)
  | case2 t rest cause hread => exact absurd hover (Nat.not_lt.mpr hused)
  | case3 t rest ins hread ih =>
      rw [Reading.cons, length_encodeAll_cons, ← Nat.add_assoc] at hover
      rw [Reading.cons, overruns_cons hused]
      rcases Nat.lt_or_ge capacity (used + ins.wordCount) with hfull | hfits
      · exact ⟨_, listOfTokens_cons_of_full hread hfull, isLeast_overruns hfull _⟩
      · obtain ⟨required, herror, hleast⟩ := ih hfits hover
        refine ⟨required, ?_, hleast⟩
        rw [listOfTokens_cons_of_fits hread hfits, herror]
        rfl

/-- A stream is never too long to be read. -/
theorem failure_ne_outOfMemory {cause : SourceError} (h : (readAll stream).failure = some cause)
    (required capacity : Nat) : cause ≠ .outOfMemory required capacity := by
  fun_induction readAll stream with
  | case1 => cases h
  | case2 t rest cause' hread =>
      rintro rfl
      cases h
      exact Window.answers_instruction ⟨t, rest⟩ _ hread
  | case3 t rest ins hread ih =>
      exact ih h

end Instruction

namespace Machine

/-- The same machine with another size of memory. -/
structure Resized (m : Machine) (size : Nat) (m' : Machine) : Prop where
  size_memory : m'.memory.size = size
  words : m'.memory.toList.take m.programLength = m.memory.toList.take m.programLength
  zeros : ∀ w ∈ m'.memory.toList.drop m.programLength, w = 0
  stack : m'.get .esp = UInt64.ofNat (max size 1 - 1)
  get : ∀ r, r ≠ .esp → m'.get r = m.get r
  zeroFlag : m'.zeroFlag = m.zeroFlag
  programLength : m'.programLength = m.programLength

theorem resized_loaded (size : Nat) {size' : Nat} {words : List Word}
    (hfits : words.length ≤ size') :
    (loaded size words).Resized size' (loaded size' words) where
  size_memory := Memory.size_ofWords hfits
  words := by simp [loaded, Memory.ofWords]
  zeros := by
    intro w hw
    simp [loaded, Memory.ofWords] at hw
    exact hw.2
  stack := by
    have hsize : max size' 1 - 1 = size' - 1 := by omega
    rw [hsize]
    rfl
  get := by
    intro r hr
    cases r with
    | esp => exact absurd rfl hr
    | _ => rfl
  zeroFlag := rfl
  programLength := rfl

variable {stream : List Token} {size size' : Nat}

open Instruction

/-- What fits in memory is loaded as if memory had no end. -/
theorem ofTokens_of_fits (hfits : (encodeAll (readAll stream).code).length ≤ size) :
    ofTokens size stream =
      (readAll stream).outcome.map fun code => loaded size (encodeAll code) := by
  rw [ofTokens, listOfTokens_of_fits (by rwa [Nat.zero_add])]
  cases (readAll stream).outcome <;> rfl

/-- What does not fit is refused with the least total beyond memory. -/
theorem ofTokens_of_overrun (hover : size < (encodeAll (readAll stream).code).length) :
    ∃ required, ofTokens size stream = .error (.outOfMemory required size) ∧
      IsLeast (overruns size 0 (readAll stream).code) required := by
  obtain ⟨required, herror, hleast⟩ :=
    listOfTokens_of_overrun (Nat.zero_le size) (by rwa [Nat.zero_add])
  refine ⟨required, ?_, hleast⟩
  rw [ofTokens, herror]
  rfl

/-- A stream that is read to its end. -/
theorem ofTokens_eq_ok_iff {m : Machine} :
    ofTokens size stream = .ok m ↔
      (encodeAll (readAll stream).code).length ≤ size ∧ (readAll stream).failure = none ∧
        loaded size (encodeAll (readAll stream).code) = m := by
  rcases Nat.lt_or_ge size (encodeAll (readAll stream).code).length with hover | hfits
  · obtain ⟨required, herror, -⟩ := ofTokens_of_overrun hover
    simp [herror, Nat.not_le.mpr hover]
  · rw [ofTokens_of_fits hfits, Reading.outcome]
    cases (readAll stream).failure <;> simp [Except.map, hfits]

/-- An error that is not about memory is that of the first instruction that cannot be read. -/
theorem ofTokens_eq_error_iff {cause : SourceError}
    (hcause : ∀ required capacity, cause ≠ .outOfMemory required capacity) :
    ofTokens size stream = .error cause ↔
      (encodeAll (readAll stream).code).length ≤ size ∧ (readAll stream).failure = some cause := by
  rcases Nat.lt_or_ge size (encodeAll (readAll stream).code).length with hover | hfits
  · obtain ⟨required, herror, -⟩ := ofTokens_of_overrun hover
    simpa [herror, Nat.not_le.mpr hover] using (hcause required size).symm
  · rw [ofTokens_of_fits hfits, Reading.outcome]
    cases (readAll stream).failure <;> simp [Except.map, hfits]

theorem lt_of_ofTokens_eq_outOfMemory {required capacity : Nat}
    (h : ofTokens size stream = .error (.outOfMemory required capacity)) :
    size < (encodeAll (readAll stream).code).length := by
  by_contra hfits
  rw [ofTokens_of_fits (Nat.not_lt.mp hfits), Reading.outcome] at h
  cases hfailure : (readAll stream).failure with
  | none => simp [hfailure, Except.map] at h
  | some cause =>
      simp only [hfailure, Except.map, Except.error.injEq] at h
      exact failure_ne_outOfMemory hfailure _ _ h

/-- Capacity is exact and monotone.  A stream that is read in one memory is read in every
memory that holds its words, to the same machine but for its size, and is given up in a smaller
one at the least total that is too large.  Another error stays in a larger memory, and a lack of
memory in a smaller one. -/
theorem ofTokens_capacity (stream : List Token) (size size' : Nat) :
    (∀ m, ofTokens size stream = .ok m →
      m = loaded size (encodeAll (readAll stream).code) ∧
      ((∃ m', ofTokens size' stream = .ok m') ↔ m.programLength ≤ size') ∧
      (∀ m', ofTokens size' stream = .ok m' → m.Resized size' m') ∧
      (size' < m.programLength → ∃ required,
        ofTokens size' stream = .error (.outOfMemory required size') ∧
          IsLeast (overruns size' 0 (readAll stream).code) required)) ∧
    (size ≤ size' → ∀ cause, ofTokens size stream = .error cause →
      (∀ required capacity, cause ≠ .outOfMemory required capacity) →
        ofTokens size' stream = .error cause) ∧
    (size' ≤ size → ∀ required capacity,
      ofTokens size stream = .error (.outOfMemory required capacity) →
        ∃ required', ofTokens size' stream = .error (.outOfMemory required' size')) := by
  refine ⟨?_, ?_, ?_⟩
  · intro m hm
    obtain ⟨-, hread, rfl⟩ := ofTokens_eq_ok_iff.mp hm
    refine ⟨rfl, ?_, ?_, fun hover => ofTokens_of_overrun hover⟩
    · simp [ofTokens_eq_ok_iff, hread, loaded]
    · intro m' hm'
      obtain ⟨hfits', -, rfl⟩ := ofTokens_eq_ok_iff.mp hm'
      exact resized_loaded size hfits'
  · intro hle cause herror hcause
    rw [ofTokens_eq_error_iff hcause] at herror ⊢
    exact ⟨herror.1.trans hle, herror.2⟩
  · intro hle required capacity herror
    obtain ⟨required', herror', -⟩ :=
      ofTokens_of_overrun (hle.trans_lt (lt_of_ofTokens_eq_outOfMemory herror))
    exact ⟨required', herror'⟩

/-- Four words do not fit in three cells.  A word that is no mnemonic is met only where the
instruction before it fits. -/
theorem ofTokens_capacity_cells :
    (∃ required, ofTokens 3 (Source.tokens "mov eax , 1 exit") =
        .error (.outOfMemory required 3)) ∧
      ofTokens 9 (Source.tokens "mov eax , 1 nop") = .error (.malformed ⟨"nop", 4⟩) ∧
      ∃ required, ofTokens 0 (Source.tokens "mov eax , 1 nop") =
        .error (.outOfMemory required 0) := by
  have hread : ofTokens 8 (Source.tokens "mov eax , 1 exit") = .ok (loaded 8 [10, 0, 1, 12]) := by
    cbv
  have hnop : ofTokens 3 (Source.tokens "mov eax , 1 nop") = .error (.malformed ⟨"nop", 4⟩) := by
    cbv
  have hfull : ofTokens 2 (Source.tokens "mov eax , 1 nop") = .error (.outOfMemory 3 2) := by
    cbv
  obtain ⟨required, herror, -⟩ :=
    ((ofTokens_capacity (Source.tokens "mov eax , 1 exit") 8 3).1 _ hread).2.2.2 (by decide)
  have hlater := (ofTokens_capacity (Source.tokens "mov eax , 1 nop") 3 9).2.1 (by decide) _
    hnop (by simp)
  exact ⟨⟨required, herror⟩, hlater,
    (ofTokens_capacity (Source.tokens "mov eax , 1 nop") 2 0).2.2 (by decide) _ _ hfull⟩

end Machine

end WordMachine
