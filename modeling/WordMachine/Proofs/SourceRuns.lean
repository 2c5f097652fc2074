import Mathlib
import WordMachine.Proofs.Budgets
import WordMachine.Proofs.Refinement

/-!
# Walks of source machines

A source machine walks where each step carries out an instruction and stores only behind
the program.  A machine with the assembled program follows it step by step, so the length
of a walk that halts is the budget that a run needs.
-/

namespace WordMachine

def Instruction.isStore {V : Type} : Instruction V → Bool
  | storeRegister _ _ _ | storeValue _ _ _ => true
  | _ => false

namespace SourceMachine

variable {outline : Outline} {m n : Nat} {s t u : SourceMachine}

/-- A number of steps, each of which carries out an instruction and stores only behind the
program. -/
inductive Walks (outline : Outline) : Nat → SourceMachine → SourceMachine → Prop
  | refl (s : SourceMachine) : Walks outline 0 s s
  | step {n : Nat} {s s' t : SourceMachine} {ins : Instruction Operand}
      (hrunning : s.halted = false) (hins : outline.code[s.pc]? = some ins)
      (hstore : ∀ address, s.storeAddress? outline = some address →
        outline.wordCount ≤ address.toNat)
      (hok : s.execute outline ins = .ok s') (hrest : Walks outline n s' t) :
      Walks outline (n + 1) s t

theorem Walks.trans (h : Walks outline m s t) (h' : Walks outline n t u) :
    Walks outline (m + n) s u := by
  induction h with
  | refl s => rwa [Nat.zero_add]
  | step hrunning hins hstore hok _ ih =>
      rw [Nat.add_right_comm]
      exact .step hrunning hins hstore hok (ih h')

/-- A walk splits at every step on the way. -/
theorem Walks.split (h : Walks outline (m + n) s u) :
    ∃ t, Walks outline m s t ∧ Walks outline n t u := by
  induction m generalizing s with
  | zero =>
      rw [Nat.zero_add] at h
      exact ⟨s, .refl s, h⟩
  | succ m ih =>
      rw [Nat.add_right_comm] at h
      cases h with
      | step hrunning hins hstore hok hrest =>
          obtain ⟨t, hfront, hback⟩ := ih hrest
          exact ⟨t, .step hrunning hins hstore hok hfront, hback⟩

theorem Walks.running (h : Walks outline (n + 1) s t) : s.halted = false := by
  cases h with
  | step hrunning => exact hrunning

/-- From every state with the first property a number of steps leads to one with the
second. -/
def Leads (outline : Outline) (n : Nat) (P Q : SourceMachine → Prop) : Prop :=
  ∀ s, P s → ∃ t, Walks outline n s t ∧ Q t

variable {P Q R : SourceMachine → Prop}

theorem Leads.trans (h : Leads outline m P Q) (h' : Leads outline n Q R) :
    Leads outline (m + n) P R := by
  intro s hs
  obtain ⟨t, hfront, ht⟩ := h s hs
  obtain ⟨u, hback, hu⟩ := h' t ht
  exact ⟨u, hfront.trans hback, hu⟩

instance : Trans (Leads outline m) (Leads outline n) (Leads outline (m + n)) where
  trans := Leads.trans

/-- What a round keeps, all rounds of a loop keep. -/
theorem Leads.iterate {I : Nat → SourceMachine → Prop} {count : Nat}
    (h : ∀ k < count, Leads outline n (I k) (I (k + 1))) :
    Leads outline (n * count) (I 0) (I count) := by
  induction count with
  | zero => exact fun s hs => ⟨s, .refl s, hs⟩
  | succ count ih =>
      rw [Nat.mul_succ]
      exact (ih fun k hk => h k (Nat.lt_succ_of_lt hk)).trans (h count (Nat.lt_succ_self count))

theorem storeAddress?_eq_none {ins : Instruction Operand}
    (hins : outline.code[s.pc]? = some ins) (hstore : ins.isStore = false) :
    s.storeAddress? outline = none := by
  rw [storeAddress?, hins]
  cases ins with
  | storeRegister base v r => cases hstore
  | storeValue base v w => cases hstore
  | _ => rfl

/-- One instruction that is no store. -/
theorem Walks.single {ins : Instruction Operand} (hrunning : s.halted = false)
    (hins : outline.code[s.pc]? = some ins) (hstore : ins.isStore = false)
    (hok : s.execute outline ins = .ok t) : Walks outline 1 s t := by
  refine .step hrunning hins ?_ hok (.refl t)
  intro address haddress
  rw [storeAddress?_eq_none hins hstore] at haddress
  cases haddress

end SourceMachine

namespace State

variable {outline : Outline} {s : State} {ref ref' : SourceMachine} {n limit : Nat}
variable {Log : Type} {note : Log → Event → Log} {log : Log}
variable (hwf : outline.WellFormed) (hsize : outline.wordCount < Word.modulus)
  (hjumps : ∀ ins ∈ outline.code, ins.jumpsByName = true)

include hwf hsize hjumps

/-- A machine that agrees with a source machine takes the steps of its walk. -/
theorem Agrees.advances (h : s.Agrees outline ref) (hintact : ref.Intact outline)
    (hwalks : ref.Walks outline n ref') (hlimit : s.steps + n ≤ limit) :
    ∃ t events, s.Advances limit events t ∧ t.Agrees outline ref' ∧ t.steps = s.steps + n := by
  induction hwalks generalizing s with
  | refl ref => exact ⟨s, [], .refl s, h, rfl⟩
  | @step n ref next ref' ins hrunning hins hstore hok hrest ih =>
      have hhalted : s.halted = false := h.halted.trans hrunning
      have hsim := h.simulates hwf hsize hjumps hrunning hins
      rw [hok] at hsim
      have hfault : s.step.fault = none := by
        rw [step_of_fetch hhalted (h.fetch hintact hins)]
        exact hsim.1
      have href : ref.next outline = next := by
        rw [SourceMachine.next, SourceMachine.step_of_getElem? hrunning hins, hok]
      have hagrees : s.next.Agrees outline next := href ▸ h.next hwf hsize hjumps hintact hins
      have hintact' : next.Intact outline := href ▸ hintact.next hstore
      have hsteps : s.next.steps = s.steps + 1 := steps_step hhalted hfault
      obtain ⟨t, events, hadvances, ht, hcount⟩ := ih hagrees hintact' (by omega)
      exact ⟨t, _, .step hhalted (by omega) hfault hadvances, ht, by omega⟩

/-- A walk to a halt gives the result of the machine and the number of its steps. -/
theorem Agrees.run_of_halted (h : s.Agrees outline ref) (hintact : ref.Intact outline)
    (hwalks : ref.Walks outline n ref') (hhalted : ref'.halted = true)
    (hlimit : s.steps + n ≤ limit) :
    (s.run note limit log).result = .ok (ref'.get .eax) ∧
      (s.run note limit log).state.steps = s.steps + n := by
  obtain ⟨t, events, hadvances, ht, hsteps⟩ :=
    h.advances hwf hsize hjumps hintact hwalks hlimit
  rw [hadvances.run_eq, State.run_of_halted (ht.halted.trans hhalted),
    ht.registers .eax (by decide)]
  exact ⟨rfl, hsteps⟩

/-- On a walk that is longer than the steps that are left the machine uses them up. -/
theorem Agrees.run_of_longer (h : s.Agrees outline ref) (hintact : ref.Intact outline)
    (hwalks : ref.Walks outline n ref') (hleft : s.steps ≤ limit)
    (hlimit : limit < s.steps + n) :
    ∃ ip, (s.run note limit log).result = .error (.stepLimit ip limit) := by
  obtain ⟨front, rfl⟩ := Nat.exists_eq_add_of_le hleft
  obtain ⟨back, rfl⟩ := Nat.exists_eq_add_of_lt (Nat.lt_of_add_lt_add_left hlimit)
  rw [Nat.add_assoc] at hwalks
  obtain ⟨mid, hfront, hback⟩ := hwalks.split
  obtain ⟨t, events, hadvances, ht, hsteps⟩ :=
    h.advances hwf hsize hjumps hintact hfront le_rfl
  rw [hadvances.run_eq, run_of_spent (ht.halted.trans hback.running) hsteps.ge]
  exact ⟨t.machine.ip, rfl⟩

end State

/-- The assembled program needs as many steps to its halt as its source. -/
theorem Outline.run_of_walks {outline : Outline} {limits : Limits} {t : SourceMachine} {n : Nat}
    (hsize : limits.memorySize < Word.modulus) (hwf : outline.WellFormed)
    (hfits : outline.wordCount ≤ limits.memorySize)
    (hjumps : ∀ ins ∈ outline.code, ins.jumpsByName = true)
    (hwalks : SourceMachine.Walks outline n (.ofMachine (outline.program limits).machine) t)
    (hhalted : t.halted = true) (limit : Nat) :
    (n ≤ limit →
      ((State.start (outline.program limits).machine).runSilently limit).result =
          .ok (t.get .eax) ∧
        ((State.start (outline.program limits).machine).runSilently limit).state.steps = n) ∧
      (limit < n → ∃ ip,
        ((State.start (outline.program limits).machine).runSilently limit).result =
          .error (.stepLimit ip limit)) := by
  have hcode : outline.wordCount < Word.modulus := Nat.lt_of_le_of_lt hfits hsize
  have hstart := Program.agrees_after (k := 0) hsize hwf hfits hjumps
    fun j hj => absurd hj (Nat.not_lt_zero j)
  have hsteps : 0 + n = n := Nat.zero_add n
  constructor
  · intro hlimit
    exact (hstart.1.run_of_halted hwf hcode hjumps hstart.2 hwalks hhalted
      (hsteps.trans_le hlimit)).imp_right fun hcount => hcount.trans hsteps
  · intro hlimit
    exact hstart.1.run_of_longer hwf hcode hjumps hstart.2 hwalks (Nat.zero_le limit)
      (hlimit.trans_eq hsteps.symm)

end WordMachine
