import Mathlib
import WordMachine.Proofs.Disassembly
import WordMachine.Proofs.Faults
import WordMachine.Proofs.Footprints
import WordMachine.Proofs.Grammar
import WordMachine.Proofs.Refinement

/-!
# Programs that jump forward

Where each jump is to a label that is declared behind it, every step leads nearer to the end
of the program, as long as the code and the cell behind it are as they were loaded.  So such
a program fetches each instruction at most once.  It halts, leaves memory, or runs into the
cell behind its last word.
-/

namespace WordMachine

namespace Instruction

variable {V W : Type}

def jump? : Instruction V → Option V
  | je target | jmp target => some target
  | _ => none

theorem jump?_map (f : V → W) (ins : Instruction V) : (ins.map f).jump? = ins.jump?.map f := by
  cases ins <;> rfl

end Instruction

theorem Machine.jump?_of_jumpTarget? {m : Machine} {ins : Instruction Word} {target : Word}
    (h : m.jumpTarget? ins = some target) : ins.jump? = some target := by
  cases ins with
  | jmp v => exact h
  | je v =>
      rw [jumpTarget?, Option.ite_none_right_eq_some] at h
      exact h.2
  | _ => cases h

namespace Outline

/-- Whether each jump is to a label that is declared behind it. -/
def JumpsForward : Outline → Prop
  | [] => True
  | .declaration _ :: rest => JumpsForward rest
  | .instruction ins :: rest =>
    (∀ v ∈ ins.jump?, ∃ name ∈ names rest, v = .reference name) ∧ JumpsForward rest

instance decidableJumpsForward : (outline : Outline) → Decidable outline.JumpsForward
  | [] => .isTrue trivial
  | .declaration _ :: rest => decidableJumpsForward rest
  | .instruction _ :: rest =>
    have := decidableJumpsForward rest
    inferInstanceAs (Decidable (_ ∧ _))

theorem entry_le (outline : Outline) (name : String) :
    outline.entry name ≤ outline.code.length := by
  have hlength := congrArg List.length (outline.code_before name)
  rw [List.length_take] at hlength
  exact min_eq_left_iff.mp hlength

theorem entry_declaration_of_ne {other name : String} (h : other ≠ name) (rest : Outline) :
    entry (.declaration other :: rest) name = entry rest name := by
  rw [entry, before_cons_of_ne (by simpa using h), code_declaration, entry]

theorem entry_instruction (ins : Instruction Operand) (rest : Outline) (name : String) :
    entry (.instruction ins :: rest) name = entry rest name + 1 := by
  rw [entry, before_cons_of_ne (by simp), code_instruction, List.length_cons, entry]

/-- A jump leads to an instruction behind it. -/
theorem JumpsForward.lt_entry {outline : Outline} (hforward : outline.JumpsForward)
    (hnodup : outline.names.Nodup) {i : Nat} {ins : Instruction Operand} {v : Operand}
    (hins : outline.code[i]? = some ins) (hjump : ins.jump? = some v) :
    ∃ name ∈ outline.names, v = .reference name ∧ i < outline.entry name := by
  induction outline generalizing i with
  | nil => cases hins
  | cons item rest ih =>
      cases item with
      | declaration other =>
          rw [names_declaration, List.nodup_cons] at hnodup
          obtain ⟨name, hname, hv, hlt⟩ := ih hforward hnodup.2 hins
          have hne : other ≠ name := by
            rintro rfl
            exact hnodup.1 hname
          refine ⟨name, List.mem_cons_of_mem _ hname, hv, ?_⟩
          rwa [entry_declaration_of_ne hne]
      | instruction first =>
          cases i with
          | zero =>
              obtain rfl : first = ins := Option.some.inj hins
              obtain ⟨name, hname, hv⟩ := hforward.1 v hjump
              refine ⟨name, hname, hv, ?_⟩
              rw [entry_instruction]
              exact Nat.succ_pos _
          | succ i =>
              obtain ⟨name, hname, hv, hlt⟩ := ih hforward.2 hnodup hins
              refine ⟨name, hname, hv, ?_⟩
              rw [entry_instruction]
              exact Nat.succ_lt_succ hlt

/-- The row of an instruction is in front of the rows behind it. -/
theorem drop_listOf_image {outline : Outline} {i : Nat} {ins : Instruction Operand}
    (hins : outline.code[i]? = some ins) :
    (Row.listOf 0 outline.image).drop i =
      ⟨UInt64.ofNat (outline.offset i), ins.map outline.word⟩ ::
        (Row.listOf 0 outline.image).drop (i + 1) := by
  have hrow : (Row.listOf 0 outline.image)[i]? =
      some ⟨UInt64.ofNat (outline.offset i), ins.map outline.word⟩ := by
    rw [getElem?_listOf_image, hins, Option.map_some]
  obtain ⟨hi, hget⟩ := List.getElem?_eq_some_iff.mp hrow
  rw [List.drop_eq_getElem_cons hi, hget]

/-- The words of an instruction stand at the addresses from its own on. -/
theorem toNat_add_of_offset {outline : Outline} (hsize : outline.wordCount < Word.modulus)
    {i k : Nat} {ins : Instruction Operand} (hins : outline.code[i]? = some ins)
    (hk : k ≤ ins.wordCount) {ip : Word} (hip : ip.toNat = outline.offset i) :
    (ip + UInt64.ofNat k).toNat = outline.offset i + k ∧
      outline.offset i + k ≤ outline.wordCount := by
  have hend := outline.offset_le (i + 1)
  rw [offset_succ hins] at hend
  have hle : outline.offset i + k ≤ outline.wordCount := (Nat.add_le_add_left hk _).trans hend
  refine ⟨?_, hle⟩
  rw [← hip] at hle ⊢
  exact Word.toNat_add_ofNat (hle.trans_lt hsize)

theorem offset_length_code (outline : Outline) :
    outline.offset outline.code.length = outline.wordCount := by
  rw [offset, List.take_length, wordCount_eq_sum_code]

end Outline

/-! ## Machines in the code of a program -/

/-- A machine that is about to carry out the instruction with a given index.  The code and
the cell behind it are as they were loaded. -/
structure Machine.StandsAt (outline : Outline) (limits : Limits) (i : Nat) (m : Machine) :
    Prop where
  le : i ≤ outline.code.length
  ip : m.ip.toNat = outline.offset i
  cells : ∀ address : Word, address.toNat ≤ outline.wordCount →
    m.memory.read? address = (outline.program limits).machine.memory.read? address

namespace Machine.StandsAt

variable {outline : Outline} {limits : Limits} {i : Nat} {m : Machine}
  {ins : Instruction Operand}

theorem start (outline : Outline) (limits : Limits) :
    (outline.program limits).machine.StandsAt outline limits 0 :=
  ⟨Nat.zero_le _, rfl, fun _ _ => rfl⟩

/-- Behind the last instruction there is a cleared cell or the end of memory. -/
theorem fetch_end (h : m.StandsAt outline limits outline.code.length) :
    Instruction.ofMemory m.memory m.ip = .error
      (if outline.wordCount < limits.memorySize then .illegalInstruction m.ip 0
        else .outOfBounds m.ip m.ip) := by
  have hip : m.ip.toNat = outline.wordCount := by rw [h.ip, Outline.offset_length_code]
  have hread : m.memory.read? m.ip =
      if outline.wordCount < limits.memorySize then some 0 else none := by
    rw [h.cells m.ip hip.le, Memory.read?, ← Array.getElem?_toList,
      Outline.toList_memory_program, hip, List.getElem?_append_right
        (Outline.length_encodeAll_image outline).le, Outline.length_encodeAll_image,
      Nat.sub_self, List.getElem?_replicate]
    exact if_congr Nat.sub_pos_iff_lt rfl rfl
  have hop : m.memory.opcodeAt m.ip = .error
      (if outline.wordCount < limits.memorySize then .illegalInstruction m.ip 0
        else .outOfBounds m.ip m.ip) := by
    rw [Memory.opcodeAt, Memory.operand, UInt64.add_zero, hread]
    split_ifs <;> rfl
  rw [Instruction.ofMemory, hop]
  rfl

/-- The instruction that the machine stands at is the one that it fetches. -/
theorem fetch (hfits : outline.wordCount ≤ limits.memorySize)
    (hsize : limits.memorySize < Word.modulus) (h : m.StandsAt outline limits i)
    (hins : outline.code[i]? = some ins) :
    Instruction.ofMemory m.memory m.ip = .ok (ins.map outline.word) := by
  have hloaded : Instruction.ofMemory (outline.program limits).machine.memory m.ip =
      .ok (ins.map outline.word) := by
    apply Instruction.ofMemory_of_prefix
    · rw [Outline.size_memory_program hfits]
      exact hsize.le
    · rw [h.ip, Outline.toList_memory_program]
      exact (Outline.encode_prefix_drop hins).trans ((List.prefix_append _ _).drop _)
  apply (Instruction.ofMemory_eq_ok_congr _).mpr hloaded
  intro k hk
  rw [Instruction.wordCount_map] at hk
  obtain ⟨haddress, hle⟩ :=
    Outline.toNat_add_of_offset (hfits.trans_lt hsize) hins hk.le h.ip
  apply h.cells
  rwa [haddress]

end Machine.StandsAt

namespace State

variable {outline : Outline} {limits : Limits} {i limit : Nat} {s t : State}
  {events : List Event} {result : Except Error Word}

/-- How a run ends that has not used up its steps, for a program of `length` words in a memory
of `size` cells. -/
inductive StopsAt (length size : Nat) (t : State) : Except Error Word → Prop
  | exited (hhalted : t.halted = true)
      (hfetch : Instruction.ofMemory t.machine.memory t.machine.ip = .ok .exit) :
      StopsAt length size t (.ok (t.machine.get .eax))
  | left {ins : Instruction Word} {base : Register} {offset : Word}
      (hfetch : Instruction.ofMemory t.machine.memory t.machine.ip = .ok ins)
      (hcell : ins.cell? = some (base, offset))
      (hbeyond : t.machine.memory.size ≤ (t.machine.get base + offset).toNat) :
      StopsAt length size t
        (.error (.fault (.outOfBounds t.machine.ip (t.machine.get base + offset))))
  | ranPast (hip : t.machine.ip.toNat = length) (hroom : length < size) :
      StopsAt length size t (.error (.fault (.illegalInstruction t.machine.ip 0)))
  | ranOut (hip : t.machine.ip.toNat = length) (hfull : length = size) :
      StopsAt length size t (.error (.fault (.outOfBounds t.machine.ip t.machine.ip)))

/-- What a run does from the instruction with a given index on. -/
structure Stops (outline : Outline) (limits : Limits) (i : Nat) (s t : State)
    (events : List Event) (result : Except Error Word) : Prop where
  stepsTo : ∀ limit, s.steps + (outline.code.length - i) < limit →
    s.StepsTo limit t events result
  rows : (Event.rows events).Sublist ((Row.listOf 0 outline.image).drop i)
  stopsAt : StopsAt outline.wordCount limits.memorySize t result

theorem stopsTo_fault (hrunning : s.halted = false) (hleft : s.steps < limit) {fault : Fault}
    (hfault : s.step.fault = some fault) :
    s.StepsTo limit s.next s.step.events (.error (.fault fault)) :=
  ⟨s, [], s.step.events, .refl s, .faulted hrunning hleft hfault, rfl⟩

/-- Behind the last instruction a run ends. -/
theorem stops_end (h : s.machine.StandsAt outline limits outline.code.length)
    (hfits : outline.wordCount ≤ limits.memorySize) (hrunning : s.halted = false) {fault : Fault}
    (hfault : s.step.fault = some fault) :
    Stops outline limits outline.code.length s s.next s.step.events (.error (.fault fault)) := by
  have hip : s.machine.ip.toNat = outline.wordCount := by
    rw [h.ip, Outline.offset_length_code]
  have hstep := step_of_fetch_error hrunning h.fetch_end
  refine ⟨fun limit hlimit => stopsTo_fault hrunning (by omega) hfault, ?_, ?_⟩
  · rw [hstep]
    exact List.nil_sublist _
  · rw [hstep] at hfault
    rw [next, hstep, ← Option.some.inj hfault]
    split_ifs with hroom
    · exact .ranPast hip hroom
    · exact .ranOut hip (Nat.le_antisymm hfits (not_lt.mp hroom))

theorem eq_of_stepsTo_of_halted (hhalted : s.halted = true)
    (h : s.StepsTo limit t events result) :
    t = s ∧ events = [] ∧ result = .ok (s.machine.get .eax) := by
  obtain ⟨last, front, back, hfront, hback, rfl⟩ := h
  cases hfront with
  | refl =>
      cases hback with
      | halted => exact ⟨rfl, rfl, rfl⟩
      | spent hrunning | faulted hrunning =>
          rw [hhalted] at hrunning
          cases hrunning
  | step hrunning =>
      rw [hhalted] at hrunning
      cases hrunning

/-- A step that succeeds has carried out an instruction of the program. -/
theorem exists_getElem?_of_step (h : s.machine.StandsAt outline limits i)
    (hrunning : s.halted = false) (hok : s.step.fault = none) :
    ∃ ins, outline.code[i]? = some ins := by
  rcases h.le.lt_or_eq with hi | rfl
  · exact ⟨_, List.getElem?_eq_getElem hi⟩
  · rw [step_of_fetch_error hrunning h.fetch_end] at hok
    cases hok

variable (hfits : outline.wordCount ≤ limits.memorySize)
  (hsize : limits.memorySize < Word.modulus)

include hfits hsize

theorem sublist_drop_of_step {ins : Instruction Operand} {j : Nat} {rows : List Row}
    (h : s.machine.StandsAt outline limits i) (hins : outline.code[i]? = some ins)
    (hrunning : s.halted = false) (hij : i < j)
    (hrows : rows.Sublist ((Row.listOf 0 outline.image).drop j)) :
    (Event.rows s.step.events ++ rows).Sublist ((Row.listOf 0 outline.image).drop i) := by
  rw [rows_step_of_fetch hrunning (h.fetch hfits hsize hins), Outline.drop_listOf_image hins,
    ← h.ip, UInt64.ofNat_toNat]
  exact (hrows.trans (List.drop_sublist_drop_left _ hij)).cons_cons _

/-- A load or a store that leaves memory ends a run. -/
theorem stops_fault {ins : Instruction Operand} {fault : Fault}
    (h : s.machine.StandsAt outline limits i) (hins : outline.code[i]? = some ins)
    (hrunning : s.halted = false) (hfault : s.step.fault = some fault) :
    Stops outline limits i s s.next s.step.events (.error (.fault fault)) := by
  have hi : i < outline.code.length := (List.getElem?_eq_some_iff.mp hins).1
  have hfetch := h.fetch hfits hsize hins
  refine ⟨fun limit hlimit => stopsTo_fault hrunning (by omega) hfault, ?_, ?_⟩
  · simpa using sublist_drop_of_step hfits hsize h hins hrunning (Nat.lt_succ_self i)
      (List.nil_sublist _)
  · rw [step_of_fetch hrunning hfetch] at hfault
    obtain ⟨heffect, base, offset, hcell, hbeyond, rfl⟩ := Machine.execute_fault hfault
    have hmachine : s.next.machine = s.machine := by
      rw [next, step_of_fetch hrunning hfetch, heffect]
      rfl
    rw [← hmachine] at hfetch hbeyond ⊢
    exact .left hfetch hcell hbeyond

/-- An instruction that halts ends a run. -/
theorem stops_exit {ins : Instruction Operand} (h : s.machine.StandsAt outline limits i)
    (hins : outline.code[i]? = some ins) (hrunning : s.halted = false)
    (hok : s.step.fault = none) (hhalted : s.next.halted = true) :
    Stops outline limits i s s.next (s.step.events ++ []) (.ok (s.next.machine.get .eax)) := by
  have hi : i < outline.code.length := (List.getElem?_eq_some_iff.mp hins).1
  have hfetch := h.fetch hfits hsize hins
  refine ⟨fun limit hlimit => ?_, ?_, ?_⟩
  · exact .step hrunning (by omega) hok ⟨s.next, [], [], .refl _, .halted hhalted, rfl⟩
  · rw [Event.rows_append]
    exact sublist_drop_of_step hfits hsize h hins hrunning (Nat.lt_succ_self i)
      (List.nil_sublist _)
  · apply StopsAt.exited hhalted
    have hexit := (halted_next_iff hrunning hfetch hok).mp hhalted
    rw [machine_next_of_exit hrunning hfetch hexit, hfetch, hexit]

variable (hwf : outline.WellFormed) (hforward : outline.JumpsForward)

include hwf hforward

/-- A step that does not end the run leads to an instruction behind the one that it carries
out. -/
theorem standsAt_next {ins : Instruction Operand} (h : s.machine.StandsAt outline limits i)
    (hins : outline.code[i]? = some ins) (hrunning : s.halted = false)
    (hok : s.step.fault = none) (hgoes : s.next.halted = false)
    (hstores : ∀ w address, .wrote w address ∈ s.step.events →
      outline.wordCount < address.toNat) :
    ∃ j, i < j ∧ s.next.machine.StandsAt outline limits j := by
  have hi : i < outline.code.length := (List.getElem?_eq_some_iff.mp hins).1
  have hcells : ∀ address : Word, address.toNat ≤ outline.wordCount →
      s.next.machine.memory.read? address =
        (outline.program limits).machine.memory.read? address := by
    intro address hle
    rw [(Reaches.single s).read?_eq fun w hw => hle.not_gt (hstores w address hw)]
    exact h.cells address hle
  have hip : s.next.machine.ip = s.machine.nextIp (ins.map outline.word) := by
    have hfetch := h.fetch hfits hsize hins
    apply ip_next hrunning hfetch hok
    intro hexit
    rw [(halted_next_iff hrunning hfetch hok).mpr hexit] at hgoes
    cases hgoes
  cases hjump : s.machine.jumpTarget? (ins.map outline.word) with
  | none =>
      refine ⟨i + 1, Nat.lt_succ_self i, hi, ?_, hcells⟩
      rw [hip, Machine.nextIp, hjump, Option.getD_none, Instruction.wordCount_map,
        (Outline.toNat_add_of_offset (hfits.trans_lt hsize) hins le_rfl h.ip).1,
        Outline.offset_succ hins]
  | some target =>
      have htarget := Machine.jump?_of_jumpTarget? hjump
      rw [Instruction.jump?_map, Option.map_eq_some_iff] at htarget
      obtain ⟨v, hv, rfl⟩ := htarget
      obtain ⟨name, -, rfl, hlt⟩ := hforward.lt_entry hwf.nodup hins hv
      refine ⟨outline.entry name, hlt, outline.entry_le name, ?_, hcells⟩
      rw [hip, Machine.nextIp, hjump]
      exact Outline.toNat_word_reference (hfits.trans_lt hsize) name

/-- A run goes on behind the instruction that it carries out, until it stops. -/
theorem stops_of_stepsTo (h : s.machine.StandsAt outline limits i) (hrunning : s.halted = false)
    (hbudget : s.steps + (outline.code.length - i) < limit)
    (hsteps : s.StepsTo limit t events result)
    (hstores : ∀ w address, .wrote w address ∈ events → outline.wordCount < address.toNat) :
    Stops outline limits i s t events result := by
  obtain ⟨last, front, back, hfront, hback, rfl⟩ := hsteps
  -- The distance to the end of the code falls with each step, and the steps that are left
  -- fall by one, so the steps are never used up.
  induction hfront generalizing i with
  | refl s =>
      cases hback with
      | halted hhalted =>
          rw [hrunning] at hhalted
          cases hhalted
      | spent _ hspent => omega
      | faulted _ _ hfault =>
          rcases h.le.lt_or_eq with hi | rfl
          · exact stops_fault hfits hsize h (List.getElem?_eq_getElem hi) hrunning hfault
          · exact stops_end h hfits hrunning hfault
  | @step s last rest hrunning hleft hok hrest ih =>
      obtain ⟨ins, hins⟩ := exists_getElem?_of_step h hrunning hok
      have hi : i < outline.code.length := (List.getElem?_eq_some_iff.mp hins).1
      have hsteps : s.next.steps = s.steps + 1 := steps_step hrunning hok
      rw [List.append_assoc] at hstores ⊢
      have hfirst : ∀ w address, .wrote w address ∈ s.step.events →
          outline.wordCount < address.toNat :=
        fun w address hw => hstores w address (List.mem_append_left _ hw)
      have hothers : ∀ w address, .wrote w address ∈ rest ++ back →
          outline.wordCount < address.toNat :=
        fun w address hw => hstores w address (List.mem_append_right _ hw)
      cases hhalted : s.next.halted with
      | true =>
          obtain ⟨rfl, hempty, rfl⟩ :=
            eq_of_stepsTo_of_halted hhalted ⟨last, rest, back, hrest, hback, rfl⟩
          rw [hempty]
          exact stops_exit hfits hsize h hins hrunning hok hhalted
      | false =>
          obtain ⟨j, hij, hnext⟩ :=
            standsAt_next hfits hsize hwf hforward h hins hrunning hok hhalted hfirst
          have hj := hnext.le
          have hstops := ih hnext hhalted (by omega) hback hothers
          refine ⟨fun limit hlimit => ?_, ?_, hstops.stopsAt⟩
          · exact .step hrunning (by omega) hok (hstops.stepsTo limit (by omega))
          · rw [Event.rows_append]
            exact sublist_drop_of_step hfits hsize h hins hrunning hij hstops.rows

end State

/-- A program that stores in its last cell, unless it jumps over that, and has no `exit`. -/
def Outline.branch : Outline :=
  [.instruction (.cmp .eax (.literal "1")), .instruction (.je (.reference "done")),
    .instruction (.storeValue .esp (.literal "0") (.literal "7")), .declaration "done",
    .instruction (.inc .eax)]

def Source.branch : String := "cmp eax , 1 je .done mov [ esp + 0 ] , 7 :done inc eax"

/-- A program stops if each of its jumps is to a label that is declared behind it and it stores
only behind its code and the cell after that.  It fetches the instructions of its listing in
their order, each at most once.  Every limit above the number of instructions gives the same
run, which ends at `exit`, at a cell beyond memory or behind the last instruction. -/
theorem Program.stops_of_jumpsForward {source : String} {limits : Limits} {p : Program}
    {outline : Outline} {budget : Nat} (hsize : limits.memorySize < Word.modulus)
    (h : ofSource source limits = .ok p) (hspells : outline.Spells source)
    (hwf : outline.WellFormed) (hforward : outline.JumpsForward)
    (hbudget : outline.code.length < budget)
    (hstores : ∀ w address, .wrote w address ∈ ((State.start p.machine).record budget).log →
      p.machine.programLength < address.toNat) :
    ∃ rows t events result, p.machine.listing = .ok rows ∧
      (Event.rows events).Sublist rows ∧
      (Event.rows events).Pairwise (fun row row' => row.address < row'.address) ∧
      t.steps ≤ outline.code.length ∧
      (∀ {Log : Type} (note : Log → Event → Log) (log : Log) (limit : Nat),
        outline.code.length < limit →
          (State.start p.machine).run note limit log = ⟨t, events.foldl note log, result⟩) ∧
      (∀ ip limit, result ≠ .error (.stepLimit ip limit)) ∧
      t.StopsAt p.machine.programLength limits.memorySize result := by
  obtain ⟨hfits, rfl⟩ := (Outline.ofSource_eq_ok_iff_of_spells hspells hwf).mp h
  obtain ⟨t, events, result, hsteps⟩ :=
    State.exists_stepsTo budget (.start (outline.program limits).machine)
  rw [hsteps.record_eq, outline.programLength_program] at hstores
  have hstops := State.stops_of_stepsTo hfits hsize hwf hforward
    (Machine.StandsAt.start outline limits) rfl (by simpa [State.start] using hbudget) hsteps
    hstores
  have hrows : (Event.rows events).Sublist (Row.listOf 0 outline.image) := hstops.rows
  have hcontiguous := outline.contiguous_image (hfits.trans_lt hsize)
  refine ⟨_, t, events, result, Outline.listing_program hfits hsize, hrows,
    hcontiguous.pairwise_address.1.sublist hrows, ?_, ?_, ?_, ?_⟩
  · have hlength := hrows.length_le
    rw [Row.length_listOf, Outline.image, List.length_map] at hlength
    rw [hsteps.reaches.steps_eq, State.start, Nat.zero_add]
    exact hlength
  · intro Log note log limit hlimit
    exact (hstops.stepsTo limit (by simpa [State.start] using hlimit)).run_eq
  · intro ip limit hresult
    rw [hresult] at hstops
    cases hstops.stopsAt
  · rw [outline.programLength_program]
    exact hstops.stopsAt

/-- The branch runs past its four instructions, however many steps it may take. -/
theorem Program.stops_of_jumpsForward_branch :
    ((State.start (Outline.branch.program { memorySize := 16 }).machine).runSilently
      1000000).result = .error (.fault (.illegalInstruction 11 0)) := by
  have hsource : ofSource Source.branch { memorySize := 16 } =
      .ok (Outline.branch.program { memorySize := 16 }) :=
    (Outline.ofSource_eq_ok_iff_of_spells (by decide +kernel) (by decide +kernel)).mpr
      ⟨by decide +kernel, rfl⟩
  have hlog : ((State.start (Outline.branch.program { memorySize := 16 }).machine).record 5).log =
      [.fetched (.cmp .eax 1) 0, .compared .eax 1 false, .fetched (.je 9) 3, .passed,
        .fetched (.storeValue .esp 0 7) 5, .wrote 7 15, .fetched (.inc .eax) 9,
        .assigned .eax 1] := by decide +kernel
  have hstores : ∀ w address, .wrote w address ∈
      ((State.start (Outline.branch.program { memorySize := 16 }).machine).record 5).log →
        (Outline.branch.program { memorySize := 16 }).machine.programLength < address.toNat := by
    rw [hlog]
    simp only [List.mem_cons, reduceCtorEq, Event.wrote.injEq, List.not_mem_nil, or_false,
      false_or]
    rintro w address ⟨-, rfl⟩
    decide +kernel
  have hspells : Outline.branch.Spells Source.branch := by decide +kernel
  obtain ⟨rows, t, events, result, -, -, -, -, hrun, -, -⟩ :=
    Program.stops_of_jumpsForward (by decide) hsource hspells (by decide +kernel)
      (by decide +kernel) (by decide) hstores
  have hfive := hrun (fun _ _ => ()) () 5 (by decide)
  rw [State.runSilently, hrun _ _ _ (by decide)]
  exact (congrArg Run.result hfive).symm.trans (by decide +kernel)

end WordMachine
