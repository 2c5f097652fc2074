import Mathlib
import WordMachine.Proofs.Budgets
import WordMachine.Proofs.Faults
import WordMachine.Proofs.Grammar

/-!
# The size of memory

Nothing in a machine shows how much memory there is, other than an access beyond the last
cell and the word that the stack pointer starts with.  A run that meets neither is the same
run in a larger memory, and the cells that were added keep their zeros.
-/

namespace WordMachine

/-- A memory with more cells, all of them cleared. -/
def Memory.widen (extra : Nat) (memory : Memory) : Memory := memory ++ cleared extra

/-- A machine with more cells and another word in the stack pointer. -/
def Machine.widen (extra : Nat) (esp : Word) (m : Machine) : Machine :=
  { m with memory := m.memory.widen extra, registers := m.registers.set .esp esp }

def Effect.widen (extra : Nat) (esp : Word) (e : Effect) : Effect :=
  { e with machine := e.machine.widen extra esp }

def State.widen (extra : Nat) (esp : Word) (s : State) : State :=
  { s with machine := s.machine.widen extra esp }

def Transition.widen (extra : Nat) (esp : Word) (t : Transition) : Transition :=
  { t with state := t.state.widen extra esp }

namespace Memory

variable {memory : Memory} {address : Word} (extra : Nat)

theorem holds_widen (h : memory.holds address = true) :
    (memory.widen extra).holds address = true := by
  simp only [holds, decide_eq_true_eq, widen, Array.size_append] at h ⊢
  omega

theorem read?_widen (h : memory.holds address = true) :
    (memory.widen extra).read? address = memory.read? address :=
  Array.getElem?_append_left (of_decide_eq_true h)

theorem write_widen (h : memory.holds address = true) (value : Word) :
    (memory.widen extra).write address value = (memory.write address value).widen extra := by
  rw [write, write, widen, Array.setIfInBounds_append_left (of_decide_eq_true h)]
  rfl

theorem ofWords_widen {size : Nat} {words : List Word} (h : words.length ≤ size) :
    ofWords (size + extra) words = (ofWords size words).widen extra := by
  have hcells : size + extra - words.length = size - words.length + extra := by omega
  rw [ofWords, ofWords, widen, cleared, Array.append_assoc, hcells]
  simp

end Memory

/-- The reading `x'` goes as `x` does, unless `x` leaves its memory.  Any other fault of `x`
is met by `x'` as well. -/
def Memory.Follows {A : Type} (x' x : Except Fault A) : Prop :=
  (∀ ip address, x ≠ .error (.outOfBounds ip address)) → x' = x

namespace Memory

variable {A B : Type}

theorem Follows.refl (x : Except Fault A) : Follows x x := fun _ => rfl

theorem Follows.bind {x x' : Except Fault A} {f f' : A → Except Fault B} (h : Follows x' x)
    (hf : ∀ a, Follows (f' a) (f a)) : Follows (x' >>= f') (x >>= f) := by
  intro hbounds
  have hfirst : x' = x := by
    apply h
    rintro ip address rfl
    exact hbounds ip address rfl
  subst hfirst
  cases x' with
  | error fault => rfl
  | ok a => exact hf a hbounds

variable (memory : Memory) (extra : Nat) (ip k : Word)

theorem operand_follows : Follows ((memory.widen extra).operand ip k) (memory.operand ip k) := by
  intro hbounds
  cases hholds : memory.holds (ip + k) with
  | true => rw [operand, operand, read?_widen extra hholds]
  | false =>
      apply absurd _ (hbounds ip (ip + k))
      rw [operand, read?_eq_none_iff.mpr hholds]

theorem registerOperand_follows :
    Follows ((memory.widen extra).registerOperand ip k) (memory.registerOperand ip k) :=
  (operand_follows memory extra ip k).bind fun _ => .refl _

theorem opcodeAt_follows : Follows ((memory.widen extra).opcodeAt ip) (memory.opcodeAt ip) :=
  (operand_follows memory extra ip 0).bind fun _ => .refl _

/-- A fetch is a chain of readings and follows link by link. -/
theorem ofMemory_follows :
    Follows (Instruction.ofMemory (memory.widen extra) ip) (Instruction.ofMemory memory ip) := by
  have hregister := registerOperand_follows memory extra ip
  have hvalue := operand_follows memory extra ip
  apply (opcodeAt_follows memory extra ip).bind
  intro op
  cases op with
  | je | jmp => exact (hvalue 1).bind fun _ => .refl _
  | cmp | sub | set => exact (hregister 1).bind fun _ => (hvalue 2).bind fun _ => .refl _
  | add | load =>
      exact (hregister 1).bind fun _ => (hregister 2).bind fun _ =>
        (hvalue 3).bind fun _ => .refl _
  | storeRegister =>
      exact (hregister 1).bind fun _ => (hvalue 2).bind fun _ =>
        (hregister 3).bind fun _ => .refl _
  | storeValue =>
      exact (hregister 1).bind fun _ => (hvalue 2).bind fun _ =>
        (hvalue 3).bind fun _ => .refl _
  | copy => exact (hregister 1).bind fun _ => (hregister 2).bind fun _ => .refl _
  | inc => exact (hregister 1).bind fun _ => .refl _
  | exit => exact .refl _

end Memory

/-! ## Carrying out instructions -/

namespace Machine

variable {m : Machine} {r base : Register} (extra : Nat) (esp : Word)

theorem get_widen (hr : r ≠ .esp) : (m.widen extra esp).get r = m.get r :=
  RegisterFile.get_set_of_ne m.registers hr esp

theorem ip_widen (m : Machine) : (m.widen extra esp).ip = m.ip :=
  get_widen extra esp (by decide)

theorem set_widen (hr : r ≠ .esp) (w : Word) :
    (m.widen extra esp).set r w = (m.set r w).widen extra esp := by
  have hregisters : (m.registers.set .esp esp).set r w = (m.registers.set r w).set .esp esp := by
    cases r <;> first | rfl | exact absurd rfl hr
  rw [set, widen, hregisters]
  rfl

theorem goOn_widen (m : Machine) (next : Word) (events : List Event) :
    (m.widen extra esp).goOn next events = (m.goOn next events).widen extra esp :=
  congrArg (fun m : Machine => (⟨m, events, false, none⟩ : Effect))
    (set_widen extra esp (by decide) next)

theorem assign_widen (hr : r ≠ .esp) (next w : Word) :
    (m.widen extra esp).assign next r w = (m.assign next r w).widen extra esp := by
  rw [assign, set_widen extra esp hr, goOn_widen]
  rfl

theorem cellAddress_widen (hbase : base ≠ .esp) (offset : Word) :
    (m.widen extra esp).cellAddress base offset = m.cellAddress base offset := by
  rw [cellAddress, cellAddress, get_widen extra esp hbase]

theorem read_widen {address value : Word} (h : m.read address = .ok value) :
    (m.widen extra esp).read address = .ok value := by
  cases hholds : m.memory.holds address with
  | false =>
      rw [read, Memory.read?_eq_none_iff.mpr hholds] at h
      cases h
  | true =>
      rw [read, widen, Memory.read?_widen extra hholds]
      rw [read] at h
      cases hread : m.memory.read? address with
      | none => simp [hread] at h
      | some w => simpa [hread] using h

theorem write_widen {address value : Word} {written : Machine}
    (h : m.write address value = .ok written) :
    (m.widen extra esp).write address value = .ok (written.widen extra esp) := by
  cases hholds : m.memory.holds address with
  | false =>
      rw [write, hholds] at h
      cases h
  | true =>
      rw [write, hholds] at h
      cases h
      rw [write, widen, Memory.holds_widen extra hholds, Memory.write_widen extra hholds]
      rfl

theorem loadInto_widen (hr : r ≠ .esp) (hbase : base ≠ .esp) {next offset : Word}
    {f : Word → Word} (hok : (m.loadInto next r base offset f).fault = none) :
    (m.widen extra esp).loadInto next r base offset f =
      (m.loadInto next r base offset f).widen extra esp := by
  rw [loadInto] at hok
  rw [loadInto, loadInto, cellAddress_widen extra esp hbase]
  cases hread : m.read (m.cellAddress base offset) with
  | error fault =>
      rw [hread] at hok
      cases hok
  | ok value =>
      simp only [read_widen extra esp hread, set_widen extra esp hr, goOn_widen]

theorem store_widen (hbase : base ≠ .esp) {next offset w : Word}
    (hok : (m.store next base offset w).fault = none) :
    (m.widen extra esp).store next base offset w =
      (m.store next base offset w).widen extra esp := by
  rw [store] at hok
  rw [store, store, cellAddress_widen extra esp hbase]
  cases hwrite : m.write (m.cellAddress base offset) w with
  | error fault =>
      rw [hwrite] at hok
      cases hok
  | ok written => simp only [write_widen extra esp hwrite, goOn_widen]

/-- An instruction that finds its cell does the same in a larger machine. -/
theorem execute_widen {ins : Instruction Word} (hesp : .esp ∉ ins.registers)
    (hok : (m.execute ins).fault = none) :
    (m.widen extra esp).execute ins = (m.execute ins).widen extra esp := by
  have hne : ∀ r ∈ ins.registers, r ≠ .esp := by
    rintro r hr rfl
    exact hesp hr
  cases ins with
  | je target =>
      have hflag : (m.widen extra esp).zeroFlag = m.zeroFlag := rfl
      simp only [execute, ip_widen, hflag, goOn_widen]
      split_ifs <;> rfl
  | jmp target => exact goOn_widen extra esp m target _
  | cmp r v =>
      have hr := hne r List.mem_cons_self
      simp only [execute, ip_widen, get_widen extra esp hr]
      exact goOn_widen extra esp (m.setZeroFlag (m.get r == v)) _ _
  | sub r v | set r v | inc r =>
      have hr := hne r List.mem_cons_self
      simp only [execute, ip_widen, get_widen extra esp hr, assign_widen extra esp hr]
  | copy r source =>
      have hr := hne r List.mem_cons_self
      have hsource := hne source (List.mem_cons_of_mem r List.mem_cons_self)
      simp only [execute, ip_widen, get_widen extra esp hsource, assign_widen extra esp hr]
  | add r base offset | load r base offset =>
      have hr := hne r List.mem_cons_self
      have hbase := hne base (List.mem_cons_of_mem r List.mem_cons_self)
      simp only [execute, ip_widen, get_widen extra esp hr]
      exact loadInto_widen extra esp hr hbase hok
  | storeRegister base offset r =>
      have hbase := hne base List.mem_cons_self
      have hr := hne r (List.mem_cons_of_mem base List.mem_cons_self)
      simp only [execute, ip_widen, get_widen extra esp hr]
      exact store_widen extra esp hbase hok
  | storeValue base offset v =>
      have hbase := hne base List.mem_cons_self
      simp only [execute, ip_widen]
      exact store_widen extra esp hbase hok
  | exit => rfl

/-- An instruction that does not leave memory does not fail. -/
theorem fault_execute_eq_none {ins : Instruction Word}
    (hbounds : ∀ ip address, (m.execute ins).fault ≠ some (.outOfBounds ip address)) :
    (m.execute ins).fault = none := by
  cases hfault : (m.execute ins).fault with
  | none => rfl
  | some fault =>
      obtain ⟨-, base, offset, -, -, rfl⟩ := execute_fault hfault
      exact absurd hfault (hbounds _ _)

/-- Reading goes the same in a larger memory unless it leaves the smaller one. -/
theorem ofMemory_widen {fetched : Except Fault (Instruction Word)}
    (hfetch : Instruction.ofMemory m.memory m.ip = fetched)
    (hbounds : ∀ ip address, fetched ≠ .error (.outOfBounds ip address)) :
    Instruction.ofMemory (m.widen extra esp).memory (m.widen extra esp).ip = fetched := by
  subst hfetch
  rw [ip_widen]
  exact Memory.ofMemory_follows m.memory extra m.ip hbounds

theorem size_memory_execute (m : Machine) (ins : Instruction Word) :
    (m.execute ins).machine.memory.size = m.memory.size := by
  have hstore : ∀ next base offset w,
      (m.store next base offset w).machine.memory.size = m.memory.size := by
    intro next base offset w
    rw [store, write]
    split_ifs
    · exact Memory.size_write m.memory _ w
    · rfl
  have hload : ∀ next r base offset f,
      (m.loadInto next r base offset f).machine.memory.size = m.memory.size := by
    intro next r base offset f
    rw [loadInto]
    cases m.read (m.cellAddress base offset) <;> rfl
  cases ins with
  | je target =>
      rw [execute]
      split_ifs <;> rfl
  | storeRegister | storeValue => exact hstore _ _ _ _
  | add | load => exact hload _ _ _ _ _
  | jmp | cmp | sub | copy | set | inc | exit => rfl

end Machine

/-! ## Runs -/

/-- Whether no instruction that is fetched names the stack pointer. -/
def Event.SparesStack (events : List Event) : Prop :=
  ∀ ins ip, .fetched ins ip ∈ events → .esp ∉ ins.registers

theorem Event.SparesStack.of_append {front back : List Event}
    (h : SparesStack (front ++ back)) : SparesStack front ∧ SparesStack back :=
  ⟨fun ins ip hfetched => h ins ip (List.mem_append_left back hfetched),
    fun ins ip hfetched => h ins ip (List.mem_append_right front hfetched)⟩

namespace State

variable {limit : Nat} {s t : State} {events : List Event} {result : Except Error Word}
variable (extra : Nat) (esp : Word)

/-- A step that leaves memory and stack pointer alone is the same step in a larger
machine. -/
theorem step_widen (hesp : Event.SparesStack s.step.events)
    (hbounds : ∀ ip address, s.step.fault ≠ some (.outOfBounds ip address)) :
    (s.widen extra esp).step = s.step.widen extra esp := by
  cases hhalted : s.halted with
  | true =>
      have hwide : (s.widen extra esp).halted = true := hhalted
      rw [step_of_halted hhalted, step_of_halted hwide]
      rfl
  | false =>
      have hwide : (s.widen extra esp).halted = false := hhalted
      cases hfetch : Instruction.ofMemory s.machine.memory s.machine.ip with
      | error fault =>
          rw [step_of_fetch_error hhalted hfetch] at hbounds ⊢
          have hfetch' := Machine.ofMemory_widen extra esp hfetch fun ip address heq =>
            hbounds ip address (congrArg some (Except.error.inj heq))
          rw [step_of_fetch_error hwide hfetch']
          rfl
      | ok ins =>
          rw [step_of_fetch hhalted hfetch] at hesp hbounds ⊢
          have hfetch' := Machine.ofMemory_widen extra esp hfetch (by simp)
          have hexecute := Machine.execute_widen extra esp (hesp ins _ List.mem_cons_self)
            (Machine.fault_execute_eq_none hbounds)
          rw [step_of_fetch hwide hfetch', widen, hexecute, Machine.ip_widen]
          rfl

/-- The events of the steps carry the condition on the stack pointer from the whole run to
each step. -/
theorem Advances.widen (h : s.Advances limit events t) (hesp : Event.SparesStack events) :
    (s.widen extra esp).Advances limit events (t.widen extra esp) := by
  induction h with
  | refl s => exact .refl _
  | @step s t events hrunning hleft hok hrest ih =>
      obtain ⟨hfirst, hlater⟩ := hesp.of_append
      have hstep : (s.widen extra esp).step = s.step.widen extra esp := by
        apply step_widen extra esp hfirst
        intro ip address
        simp [hok]
      have hrest' : (s.widen extra esp).next.Advances limit events (t.widen extra esp) := by
        rw [next, hstep]
        exact ih hlater
      have hok' : (s.widen extra esp).step.fault = none := by rw [hstep]; exact hok
      have hadvances := Advances.step (s := s.widen extra esp) hrunning hleft hok' hrest'
      rwa [hstep] at hadvances

/-- A run ends in the same way in a larger memory unless it leaves the smaller one. -/
theorem Ends.widen (h : s.Ends limit t events result) (hesp : Event.SparesStack events)
    (hbounds : ∀ ip address, result ≠ .error (.fault (.outOfBounds ip address))) :
    (s.widen extra esp).Ends limit (t.widen extra esp) events result := by
  cases h with
  | halted hhalted =>
      rw [← Machine.get_widen extra esp (show Register.eax ≠ .esp by decide)]
      exact .halted hhalted
  | spent hrunning hspent =>
      rw [← Machine.ip_widen extra esp]
      exact .spent hrunning hspent
  | @faulted hrunning hleft fault hfault =>
      have hstep : (s.widen extra esp).step = s.step.widen extra esp := by
        apply step_widen extra esp hesp
        intro ip address heq
        rw [hfault] at heq
        cases heq
        exact hbounds ip address rfl
      have hfault' : (s.widen extra esp).step.fault = some fault := by rw [hstep]; exact hfault
      have hend := Ends.faulted (s := s.widen extra esp) hrunning hleft hfault'
      rwa [State.next, hstep] at hend

/-- Steps that leave memory and stack pointer alone come to the same end in a larger
machine. -/
theorem StepsTo.widen (h : s.StepsTo limit t events result) (hesp : Event.SparesStack events)
    (hbounds : ∀ ip address, result ≠ .error (.fault (.outOfBounds ip address))) :
    (s.widen extra esp).StepsTo limit (t.widen extra esp) events result := by
  obtain ⟨last, front, back, hfront, hback, rfl⟩ := h
  obtain ⟨hesp₁, hesp₂⟩ := hesp.of_append
  exact ⟨last.widen extra esp, front, back, hfront.widen extra esp hesp₁,
    hback.widen extra esp hesp₂ hbounds, rfl⟩

theorem size_memory_next (s : State) : s.next.machine.memory.size = s.machine.memory.size := by
  rw [next, step]
  split_ifs
  · rfl
  · split
    · rfl
    · exact Machine.size_memory_execute s.machine _

/-- A run does not change the size of memory. -/
theorem StepsTo.size_memory (h : s.StepsTo limit t events result) :
    t.machine.memory.size = s.machine.memory.size := by
  obtain ⟨last, front, back, hfront, hback, -⟩ := h
  have hlast : last.machine.memory.size = s.machine.memory.size := by
    clear hback
    induction hfront with
    | refl s => rfl
    | @step s _ _ _ _ _ _ ih => exact ih.trans (size_memory_next s)
  rw [← hlast]
  cases hback with
  | halted | spent => rfl
  | faulted => exact size_memory_next last

end State

theorem Machine.loaded_widen {size extra : Nat} {words : List Word}
    (h : words.length ≤ size) :
    loaded (size + extra) words =
      (loaded size words).widen extra (UInt64.ofNat (size + extra - 1)) := by
  rw [loaded, Memory.ofWords_widen extra h]
  rfl

/-- A program does the same in a larger memory, also where it writes over its own code,
unless its run leaves the smaller memory or one of its instructions names the stack
pointer.  The cells that were added are still clear at the end. -/
theorem Program.record_of_memorySize_le {source : String} {limits : Limits} {p : Program}
    {size : Nat} (hsource : ofSource source limits = .ok p) (hsize : limits.memorySize ≤ size)
    (hesp : Event.SparesStack ((State.start p.machine).record limits.stepLimit).log)
    (hbounds : ∀ ip address, ((State.start p.machine).record limits.stepLimit).result ≠
      .error (.fault (.outOfBounds ip address))) :
    ∃ p', ofSource source { limits with memorySize := size } = .ok p' ∧
      p'.labels = p.labels ∧
      let run := (State.start p.machine).record limits.stepLimit
      let run' := (State.start p'.machine).record limits.stepLimit
      run'.result = run.result ∧ run'.log = run.log ∧
      run'.state.steps = run.state.steps ∧ run'.state.halted = run.state.halted ∧
      run'.state.machine.zeroFlag = run.state.machine.zeroFlag ∧
      (∀ r, r ≠ .esp → run'.state.machine.get r = run.state.machine.get r) ∧
      run.state.machine.memory.size = limits.memorySize ∧
      run'.state.machine.memory.toList =
        run.state.machine.memory.toList ++ List.replicate (size - limits.memorySize) 0 := by
  obtain ⟨extra, rfl⟩ := Nat.exists_eq_add_of_le hsize
  obtain ⟨outline, hspells, hwf, hfits, rfl⟩ := ofSource_eq_ok_iff.mp hsource
  let esp := UInt64.ofNat (limits.memorySize + extra - 1)
  have hloaded : (outline.program { limits with
      memorySize := limits.memorySize + extra }).machine =
        (outline.program limits).machine.widen extra esp := by
    apply Machine.loaded_widen
    rwa [Outline.length_encodeAll_image]
  obtain ⟨t, events, result, hsteps⟩ :=
    State.exists_stepsTo limits.stepLimit (.start (outline.program limits).machine)
  rw [hsteps.record_eq] at hesp hbounds
  have hsteps' : (State.start ((outline.program limits).machine.widen extra esp)).StepsTo
      limits.stepLimit (t.widen extra esp) events result :=
    hsteps.widen extra esp hesp hbounds
  refine ⟨_, ofSource_eq_ok_iff.mpr ⟨outline, hspells, hwf, hfits.trans hsize, rfl⟩, rfl, ?_⟩
  rw [hloaded, hsteps.record_eq, hsteps'.record_eq]
  refine ⟨rfl, rfl, rfl, rfl, rfl, fun r hr => Machine.get_widen extra _ hr, ?_, ?_⟩
  · exact hsteps.size_memory.trans (Outline.size_memory_program hfits)
  · simp [State.widen, Machine.widen, Memory.widen, Memory.cleared]

/-- A program that replaces an operand of its second instruction. -/
theorem Program.record_of_memorySize_le_store :
    ∃ p', ofSource "mov [ ebp + 6 ] , 7 mov eax , 3 exit"
        { memorySize := 4096, maxSteps := some 5 } = .ok p' ∧
      ((State.start p'.machine).record 5).result = .ok 7 ∧
      ((State.start p'.machine).record 5).state.machine.memory.toList =
        [7, 4, 6, 7, 10, 0, 7, 12] ++ List.replicate 4088 0 := by
  have hsource : ofSource "mov [ ebp + 6 ] , 7 mov eax , 3 exit"
      { memorySize := 8, maxSteps := some 5 } =
        .ok ⟨.loaded 8 [7, 4, 6, 7, 10, 0, 3, 12], {}⟩ := by cbv
  have hlog : ((State.start (.loaded 8 [7, 4, 6, 7, 10, 0, 3, 12])).record 5).log =
      [.fetched (.storeValue .ebp 6 7) 0, .wrote 7 6, .fetched (.set .eax 7) 4,
        .assigned .eax 7, .fetched .exit 7, .exited] := by decide
  have hresult : ((State.start (.loaded 8 [7, 4, 6, 7, 10, 0, 3, 12])).record 5).result =
      .ok 7 := by decide
  have hcells : ((State.start (.loaded 8 [7, 4, 6, 7, 10, 0, 3, 12])).record
      5).state.machine.memory.toList = [7, 4, 6, 7, 10, 0, 7, 12] := by decide
  have hesp : Event.SparesStack ((State.start (.loaded 8 [7, 4, 6, 7, 10, 0, 3, 12])).record
      5).log := by
    simp only [hlog, Event.SparesStack, List.mem_cons, Event.fetched.injEq, reduceCtorEq,
      false_or, List.not_mem_nil, or_false]
    rintro ins ip (⟨rfl, -⟩ | ⟨rfl, -⟩ | ⟨rfl, -⟩) <;> decide
  obtain ⟨p', hp', -, hresult', -, -, -, -, -, -, hcells'⟩ :=
    Program.record_of_memorySize_le hsource (show 8 ≤ 4096 by decide) hesp
      (by simp [Limits.stepLimit, hresult])
  exact ⟨p', hp', hresult'.trans hresult, hcells'.trans (congrArg (· ++ _) hcells)⟩

end WordMachine
