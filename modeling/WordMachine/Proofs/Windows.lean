import Mathlib
import WordMachine.Proofs.Questions

/-!
# Windows on listings

Each turn of a session shows a part of the listing.  Where the instruction pointer is at
a row, that row is marked and stands among the rows around it.  Anywhere else there is no
row to mark, and the listing is shown from its start.
-/

namespace WordMachine

/-- Programs are listed by increasing addresses. -/
theorem Program.exists_listing {source : String} {limits : Limits} {p : Program}
    (hsize : limits.memorySize < Word.modulus) (h : Program.ofSource source limits = .ok p) :
    ∃ rows, p.machine.listing = .ok rows ∧
      rows.Pairwise fun row row' => row.address < row'.address := by
  obtain ⟨outline, -, -, hfits, rfl⟩ := ofSource_eq_ok_iff.mp h
  have hrows := outline.contiguous_image (Nat.lt_of_le_of_lt hfits hsize)
  exact ⟨_, Outline.listing_program hfits hsize, hrows.pairwise_address.1⟩

/-- The cells of a row in a window: the mark, the address filled up to four digits, the names of
the labels there, and the text and the words of the instruction. -/
structure Row.Prints (labels : SymbolTable) (ip : Word) (row : Row) (cells : List String) :
    Prop where
  length_eq : cells.length = 5
  mark : cells[0]? = some (if row.address = ip then ">" else "")
  address : ∃ digits, cells[1]? = some digits ∧ (∀ c ∈ digits.toList, c.isDigit) ∧
    digits.length = max 4 row.address.text.length ∧
    Nat.ofDigitChars 10 digits.toList 0 = row.address.toNat
  names : cells[2]? = some (", ".intercalate (labels.namesAt row.address))
  instruction : cells[3]? = some row.ins.text
  words : cells[4]? = some (" ".intercalate (row.ins.encode.map Word.text))

namespace Debugger

/-- An address is filled up with zeros, so its digits still have its value. -/
theorem addressText_digits (address : Word) :
    (∀ c ∈ (addressText address).toList, c.isDigit) ∧
      (addressText address).length = max 4 address.text.length ∧
      Nat.ofDigitChars 10 (addressText address).toList 0 = address.toNat := by
  have hdigits : ∀ c ∈ Nat.toDigits 10 address.toNat, c.isDigit := fun c =>
    Nat.isDigit_of_mem_toDigits (by decide) (by decide)
  have hzeros : ∀ n, Nat.ofDigitChars 10 (List.replicate n '0') 0 = 0 := by
    intro n
    induction n with
    | zero => rfl
    | succ n ih => exact ih
  rw [addressText, String.toList_ofList, List.leftpad]
  refine ⟨fun c hc => ?_, ?_, ?_⟩
  · rcases List.mem_append.mp hc with hc | hc
    · rw [List.eq_of_mem_replicate hc]
      rfl
    · exact hdigits c hc
  · simp [Word.text, Nat.repr_eq_ofList_toDigits]
    omega
  · rw [Nat.ofDigitChars_append, hzeros]
    exact Nat.ofDigitChars_ten_toDigits

section

variable {listing front : List Row} {row : Row} {ip : Word}

theorem window_isInfix (listing : List Row) (ip : Word) : window listing ip <:+: listing :=
  (List.take_prefix _ _).isInfix.trans (List.drop_suffix _ _).isInfix

theorem length_window_le (listing : List Row) (ip : Word) :
    (window listing ip).length ≤ windowHeight :=
  List.length_take_le _ _

/-- Only an empty listing has an empty window. -/
theorem eq_nil_of_window_eq_nil (h : window listing ip = []) : listing = [] := by
  rw [window, List.take_eq_nil_iff, List.drop_eq_nil_iff] at h
  have hle := h.resolve_left (by decide)
  cases hfound : listing.findIdx? fun row => row.address == ip with
  | none =>
      rw [hfound, Option.getD_none, Nat.zero_sub] at hle
      exact List.eq_nil_of_length_eq_zero (Nat.le_zero.mp hle)
  | some i =>
      have hlt := (List.findIdx?_eq_some_iff_findIdx_eq.mp hfound).1
      rw [hfound, Option.getD_some] at hle
      omega

theorem findIdx?_of_ne (h : ∀ row ∈ listing, row.address ≠ ip) :
    (listing.findIdx? fun row => row.address == ip) = none := by
  rw [List.findIdx?_eq_none_iff]
  intro row hrow
  simpa using h row hrow

/-- Without a row at the address the window is at the start. -/
theorem window_of_ne (h : ∀ row ∈ listing, row.address ≠ ip) :
    window listing ip = listing.take windowHeight := by
  rw [window, findIdx?_of_ne h, Option.getD_none, Nat.zero_sub, List.drop_zero]

/-- A row at the address has at most half of the height in front of it. -/
theorem window_of_append (hrow : row.address = ip) (hfront : ∀ row ∈ front, row.address ≠ ip)
    (back : List Row) :
    ∃ above below, above <:+ front ∧ below <+: back ∧ above.length ≤ windowHeight / 2 ∧
      window (front ++ row :: back) ip = above ++ row :: below := by
  have hfound : ((front ++ row :: back).findIdx? fun row => row.address == ip) =
      some front.length := by
    rw [List.findIdx?_append, findIdx?_of_ne hfront, List.findIdx?_cons,
      if_pos (by simpa using hrow)]
    simp
  have habove : (front.drop (front.length - windowHeight / 2)).length ≤ windowHeight / 2 := by
    rw [List.length_drop]
    omega
  obtain ⟨room, hroom⟩ : ∃ room, windowHeight -
      (front.drop (front.length - windowHeight / 2)).length = room + 1 :=
    Nat.exists_eq_add_one.mpr (by rw [windowHeight] at habove ⊢; omega)
  refine ⟨_, back.take room, List.drop_suffix _ _, List.take_prefix _ _, habove, ?_⟩
  rw [window, hfound, Option.getD_some, List.drop_append_of_le_length (Nat.sub_le _ _),
    List.take_append, hroom, List.take_succ_cons, List.take_of_length_le]
  exact habove.trans (Nat.div_le_self _ _)

end

namespace Frame

/-- The first cells of the rows that a frame shows. -/
def markColumn (labels : SymbolTable) (frame : Frame) : List String :=
  (frame.windowTable labels).rows.map fun cells => cells.headD ""

theorem markColumn_eq (labels : SymbolTable) (frame : Frame) :
    frame.markColumn labels = frame.rows.map fun row => if frame.marks row then ">" else "" := by
  rw [markColumn, windowTable, List.map_map]
  rfl

/-- The window of a frame shows where the instruction pointer is in a listing. -/
structure ShowsPosition (frame : Frame) (listing : List Row) : Prop where
  slice : frame.rows <:+: listing
  height : frame.rows.length ≤ 15
  empty : frame.rows = [] → listing = []
  /-- A row at the instruction pointer is shown and carries the only mark. -/
  marked : ∀ row ∈ listing, row.address = frame.registers.eip →
    ∃ above below, frame.rows = above ++ row :: below ∧ above.length ≤ 7 ∧
      ∀ labels, frame.markColumn labels =
        List.replicate above.length "" ++ ">" :: List.replicate below.length ""
  /-- If there is no such row the window starts with the listing and has no mark. -/
  unmarked : (∀ row ∈ listing, row.address ≠ frame.registers.eip) →
    frame.rows <+: listing ∧
      ∀ labels, frame.markColumn labels = List.replicate frame.rows.length ""
  /-- The table has a line of cells for each row that is shown. -/
  prints : ∀ labels, List.Forall₂ (Row.Prints labels frame.registers.eip) frame.rows
    (frame.windowTable labels).rows

variable {frame : Frame} {listing above below : List Row} {row : Row}

theorem marks_iff : frame.marks row = true ↔ row.address = frame.registers.eip := beq_iff_eq

/-- The window has a line of five cells for each row of its part of the listing. -/
theorem forall₂_prints (frame : Frame) (labels : SymbolTable) :
    List.Forall₂ (Row.Prints labels frame.registers.eip) frame.rows
      (frame.windowTable labels).rows := by
  rw [windowTable, List.forall₂_map_right_iff, List.forall₂_same]
  intro row _
  refine ⟨rfl, ?_, ⟨_, rfl, addressText_digits row.address⟩, rfl, rfl, rfl⟩
  simp [marks]

/-- Rows elsewhere have no mark. -/
theorem map_mark_of_ne (h : ∀ row ∈ listing, row.address ≠ frame.registers.eip) :
    (listing.map fun row => if frame.marks row then ">" else "") =
      List.replicate listing.length "" := by
  rw [List.map_eq_replicate_iff]
  intro row hrow
  exact if_neg fun hmarks => h row hrow (marks_iff.mp hmarks)

theorem markColumn_of_append (hrows : frame.rows = above ++ row :: below)
    (hrow : row.address = frame.registers.eip)
    (habove : ∀ row ∈ above, row.address ≠ frame.registers.eip)
    (hbelow : ∀ row ∈ below, row.address ≠ frame.registers.eip) (labels : SymbolTable) :
    frame.markColumn labels =
      List.replicate above.length "" ++ ">" :: List.replicate below.length "" := by
  rw [markColumn_eq, hrows, List.map_append, List.map_cons, map_mark_of_ne habove,
    map_mark_of_ne hbelow, if_pos (marks_iff.mpr hrow)]

/-- The window on a listing whose addresses increase shows the position. -/
theorem showsPosition_of_window
    (hlisting : listing.Pairwise fun row row' => row.address < row'.address)
    (hwindow : frame.rows = window listing frame.registers.eip) :
    frame.ShowsPosition listing where
  slice := hwindow ▸ window_isInfix listing _
  height := hwindow ▸ length_window_le listing _
  empty := fun hempty => eq_nil_of_window_eq_nil (hwindow.symm.trans hempty)
  marked := by
    intro row hrow hip
    obtain ⟨front, back, rfl⟩ := List.append_of_mem hrow
    obtain ⟨-, hpairs, hcross⟩ := List.pairwise_append.mp hlisting
    have hfront : ∀ row' ∈ front, row'.address ≠ frame.registers.eip :=
      fun row' hrow' => hip ▸ UInt64.ne_of_lt (hcross row' hrow' row List.mem_cons_self)
    have hback : ∀ row' ∈ back, row'.address ≠ frame.registers.eip :=
      fun row' hrow' => hip ▸ (UInt64.ne_of_lt ((List.pairwise_cons.mp hpairs).1 row' hrow')).symm
    obtain ⟨above, below, habove, hbelow, hlength, hrows⟩ :=
      window_of_append hip hfront back
    rw [← hwindow] at hrows
    exact ⟨above, below, hrows, hlength, markColumn_of_append hrows hip
      (fun row' hrow' => hfront row' (habove.subset hrow'))
      (fun row' hrow' => hback row' (hbelow.subset hrow'))⟩
  unmarked := by
    intro hne
    rw [window_of_ne hne] at hwindow
    have hfirst : frame.rows <+: listing := hwindow ▸ List.take_prefix _ _
    refine ⟨hfirst, fun labels => ?_⟩
    rw [markColumn_eq]
    exact map_mark_of_ne fun row hrow => hne row (hfirst.subset hrow)
  prints := frame.forall₂_prints

end Frame

section

variable {rows : List Row} {frame : Frame} {limit budget pending : Nat} {s : State}
  {typed : Typed}

theorem eq_ofState_of_mem_asked {prompts : Nat} (h : .frame frame ∈ asked rows s prompts) :
    frame = .ofState rows s := by
  simpa [asked] using h

theorem eq_ofState_of_mem_turn {prompts : Nat} {events : List Event}
    (h : .frame frame ∈ asked rows s prompts ++ events.map Shown.logged) :
    frame = .ofState rows s := by
  simpa [asked] using h

/-- A frame shows the machine after as many steps as its header says. -/
theorem exists_iterate_of_mem_sessionFor
    (h : .frame frame ∈ (sessionFor rows limit budget s pending typed).shown) :
    ∃ k, frame = .ofState rows (State.next^[k] s) ∧ frame.steps = s.steps + k := by
  revert h
  have hfirst {s : State} (hframe : frame = .ofState rows s) :
      ∃ k, frame = .ofState rows (State.next^[k] s) ∧ frame.steps = s.steps + k :=
    ⟨0, hframe, congrArg Frame.steps hframe⟩
  refine sessionFor_induction (motive := fun _ s _ _ session => .frame frame ∈ session.shown →
    ∃ k, frame = .ofState rows (State.next^[k] s) ∧ frame.steps = s.steps + k)
    ?halted ?waiting ?spent ?faulted ?stepped budget s pending typed
  case halted =>
    intro _ _ _ _ _ h
    simp at h
  case waiting => exact fun _ _ _ _ _ _ h => hfirst (eq_ofState_of_mem_asked h)
  case spent => exact fun _ _ _ _ _ h => hfirst (eq_ofState_of_mem_asked h)
  case faulted => exact fun _ _ _ _ _ _ _ _ h => hfirst (eq_ofState_of_mem_turn h)
  case stepped =>
    intro _ s _ _ _ session hhalted _ hstep ih h
    rcases List.mem_append.mp h with hturn | hrest
    · exact hfirst (eq_ofState_of_mem_turn hturn)
    · obtain ⟨k, hframe, hcount⟩ := ih hrest
      have hnext : s.next.steps = s.steps + 1 := State.steps_step hhalted hstep
      refine ⟨k + 1, hframe, ?_⟩
      omega

theorem eq_ofState_of_mem_session {p : Program} {limits : Limits}
    (h : .frame frame ∈ (session p limits rows typed).shown) :
    frame = .ofState rows (State.next^[frame.steps] (.start p.machine)) := by
  obtain ⟨k, hframe, hsteps⟩ := exists_iterate_of_mem_sessionFor h
  obtain rfl : frame.steps = k := hsteps.trans (Nat.zero_add k)
  exact hframe

def Shown.frame? : Shown → Option Frame
  | .frame shown => some shown
  | _ => none

/-- Each turn of a session shows the machine once, and nothing else does. -/
theorem Session.Course.frames_eq {session : Session} {prompts : Nat → Nat} {taken turns : Nat}
    (h : session.Course rows limit budget s prompts taken turns) :
    session.shown.filterMap Shown.frame? =
      (List.range turns).map fun k => .ofState rows (State.next^[k] s) :=
  h.filterMap_shown (g := Shown.frame?) (fun _ => rfl) rfl (fun _ => rfl) fun _ _ => rfl

end

/-- The window of each frame is a part of the listing and shows the instruction pointer.
It does so in every state of a machine, and whatever is typed.  Each turn prints the window of
its state behind the header. -/
theorem session_shows_position {source : String} {limits : Limits} {p : Program}
    (hsize : limits.memorySize < Word.modulus) (h : Program.ofSource source limits = .ok p) :
    ∃ rows, p.machine.listing = .ok rows ∧
      (∀ s, (Frame.ofState rows s).ShowsPosition rows) ∧
      (∀ typed frame, .frame frame ∈ (session p limits rows typed).shown →
        frame = .ofState rows (State.next^[frame.steps] (.start p.machine)) ∧
          frame.ShowsPosition rows ∧
          ∀ labels, .line ("--- ins #" ++ frame.steps.repr ++ " ---") ::
              Printed.drawn (frame.windowTable labels) <:+:
            Printed.ofText ((session p limits rows typed).text labels)) ∧
      ∀ text, ∃ prompts taken turns,
        (session p limits rows (.ofText text)).Course rows limits.stepLimit limits.stepLimit
          (.start p.machine) prompts taken turns ∧
        (session p limits rows (.ofText text)).shown.filterMap Shown.frame? =
          (List.range turns).map fun k => .ofState rows (State.next^[k] (.start p.machine)) := by
  obtain ⟨rows, hrows, hpairs⟩ := Program.exists_listing hsize h
  have hstate : ∀ s, (Frame.ofState rows s).ShowsPosition rows :=
    fun s => Frame.showsPosition_of_window hpairs rfl
  refine ⟨rows, hrows, hstate, ?_, ?_⟩
  · intro typed frame hframe
    have heq := eq_ofState_of_mem_session hframe
    refine ⟨heq, heq ▸ hstate _, fun labels => ?_⟩
    have hturn : .line ("--- ins #" ++ frame.steps.repr ++ " ---") ::
        Printed.drawn (frame.windowTable labels) <:+: (Shown.frame frame).printed labels :=
      ⟨[.line ""], Printed.drawn frame.registerTable, rfl⟩
    exact hturn.trans (Session.printed_isInfix_text hframe labels)
  · intro text
    obtain ⟨taken, turns, hcourse⟩ := course_sessionFor (rfl : (Typed.ofText text).ended = true)
      rows limits.stepLimit limits.stepLimit (.start p.machine) 0
    exact ⟨_, taken, turns, hcourse, hcourse.frames_eq⟩

/-- The second picture of the loop marks the row of `je .done`, which is at address three. -/
theorem session_shows_position_loop :
    ∃ rows frame, (Outline.loop.program { memorySize := 16 }).machine.listing = .ok rows ∧
      .frame frame ∈ (session (Outline.loop.program { memorySize := 16 })
        { memorySize := 16, maxSteps := some 5 } rows (.ofText "")).shown ∧
      frame.steps = 1 ∧ frame.registers.eip = 3 ∧ frame.ShowsPosition rows ∧
      ∀ labels, frame.markColumn labels = ["", ">", "", "", "", ""] := by
  have hsource : Program.ofSource Source.loop { memorySize := 16, maxSteps := some 5 } =
      .ok (Outline.loop.program { memorySize := 16 }) := Outline.loop_ofSource
  obtain ⟨rows, hrows, -, hframes, -⟩ := session_shows_position (by decide) hsource
  obtain rfl : rows = Row.listOf 0 Outline.loop.image :=
    Except.ok.inj (hrows.symm.trans (Outline.listing_program (by decide +kernel) (by decide)))
  have hshown : .frame (.ofState (Row.listOf 0 Outline.loop.image)
      (State.start (Outline.loop.program { memorySize := 16 }).machine).next) ∈
        (session (Outline.loop.program { memorySize := 16 })
          { memorySize := 16, maxSteps := some 5 } (Row.listOf 0 Outline.loop.image)
            (.ofText "")).shown := by
    decide +kernel
  refine ⟨_, _, hrows, hshown, rfl, by decide +kernel, (hframes _ _ hshown).2.1, fun labels => ?_⟩
  rw [Frame.markColumn_eq]
  decide +kernel

end Debugger

end WordMachine
