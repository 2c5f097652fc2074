import WordMachine.Word

/-!
# Registers

There are seven registers.  Source text may name the first six; the instruction
pointer `eip` moves through jumps alone, although encoded programs can address it
by its id like any other register.  A register file holds one word for each.
-/

namespace WordMachine

inductive Register where
  | eax | ebx | ecx | edx | ebp | esp | eip
  deriving DecidableEq, Repr

namespace Register

/-- The registers that source text may name. -/
def named : List Register := [eax, ebx, ecx, edx, ebp, esp]

def all : List Register := named ++ [eip]

def name : Register → String
  | eax => "eax"
  | ebx => "ebx"
  | ecx => "ecx"
  | edx => "edx"
  | ebp => "ebp"
  | esp => "esp"
  | eip => "eip"

/-- The register that a source token names, if any. -/
def ofName? (name : String) : Option Register :=
  named.find? fun r => r.name == name

/-- The word that stands for a register in an encoded instruction. -/
def id : Register → Word
  | eax => 0
  | ebx => 1
  | ecx => 2
  | edx => 3
  | ebp => 4
  | esp => 5
  | eip => 6

def ofId? (id : Word) : Option Register :=
  all.find? fun r => r.id == id

@[simp]
theorem ofId?_id (r : Register) : ofId? r.id = some r := by
  cases r <;> decide

theorem ofId?_eq_some_iff {id : Word} {r : Register} : ofId? id = some r ↔ r.id = id := by
  constructor
  · intro h
    simpa using List.find?_some h
  · rintro rfl
    exact ofId?_id r

/-- Source text names every register but the instruction pointer. -/
theorem ofName?_eq_some_iff {name : String} {r : Register} :
    ofName? name = some r ↔ r ≠ eip ∧ r.name = name := by
  constructor
  · intro h
    have hname : r.name = name := by simpa using List.find?_some h
    have hmem : r ∈ named := List.mem_of_find?_eq_some h
    refine ⟨?_, hname⟩
    rintro rfl
    simp [named] at hmem
  · rintro ⟨hne, rfl⟩
    revert hne
    cases r <;> decide

end Register

/-- One word for each register. -/
structure RegisterFile where
  eax : Word := 0
  ebx : Word := 0
  ecx : Word := 0
  edx : Word := 0
  ebp : Word := 0
  esp : Word := 0
  eip : Word := 0
  deriving DecidableEq, Repr

namespace RegisterFile

def get (file : RegisterFile) : Register → Word
  | .eax => file.eax
  | .ebx => file.ebx
  | .ecx => file.ecx
  | .edx => file.edx
  | .ebp => file.ebp
  | .esp => file.esp
  | .eip => file.eip

def set (file : RegisterFile) (r : Register) (w : Word) : RegisterFile :=
  match r with
  | .eax => { file with eax := w }
  | .ebx => { file with ebx := w }
  | .ecx => { file with ecx := w }
  | .edx => { file with edx := w }
  | .ebp => { file with ebp := w }
  | .esp => { file with esp := w }
  | .eip => { file with eip := w }

theorem get_set (file : RegisterFile) (r s : Register) (w : Word) :
    (file.set r w).get s = if s = r then w else file.get s := by
  cases r <;> cases s <;> rfl

theorem get_set_of_ne (file : RegisterFile) {r s : Register} (h : s ≠ r) (w : Word) :
    (file.set r w).get s = file.get s := by
  simp [get_set, h]

end RegisterFile

end WordMachine
