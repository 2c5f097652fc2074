import Mathlib
import WordMachine.Proofs.Unresolved

/-!
# Resolving any stream

Resolving takes the tokens of a stream one by one and looks at nothing else.  It fails at the
first reference that is to no label of the table.  Otherwise each token that stays keeps its
index, and no sigil is left.  So there is nothing to resolve in what comes out, whatever the
table is.
-/

namespace WordMachine

namespace SymbolTable

variable {table : SymbolTable} {t t' : Token} {stream resolved : List Token}
variable {cause : SourceError}

/-- A reference without a name, or to a name that no label of the table has. -/
def Dangles (table : SymbolTable) (t : Token) : Prop :=
  ∃ name, t.text = "." ++ name ∧ (name = "" ∨ name ∉ table.names)

/-- Whether an error says of a token in which way it dangles. -/
def Refuses (table : SymbolTable) (t : Token) (cause : SourceError) : Prop :=
  ∃ name, t.text = "." ++ name ∧
    ((name = "" ∧ cause = .malformed t) ∨
      (name ≠ "" ∧ name ∉ table.names ∧ cause = .unknownLabel t.index name))

/-- Whether a token stands for another one, given the addresses of a table. -/
structure Rewrites (table : SymbolTable) (t t' : Token) : Prop where
  index : t'.index = t.index
  /-- In place of a reference stands a numeral that is read back as its address. -/
  reference : ∀ name, t.text = "." ++ name →
    ∃ address, table.address? name = some address ∧ t'.text = address.text ∧
      Word.ofText? t'.text = some address
  other : t.role ≠ .reference → t'.text = t.text

theorem dangles_iff : table.Dangles t ↔ ∃ cause, table.Refuses t cause := by
  constructor
  · rintro ⟨name, htext, hname⟩
    by_cases hempty : name = ""
    · exact ⟨_, name, htext, .inl ⟨hempty, rfl⟩⟩
    · exact ⟨_, name, htext, .inr ⟨hempty, hname.resolve_left hempty, rfl⟩⟩
  · rintro ⟨cause, name, htext, hname⟩
    exact ⟨name, htext, hname.imp And.left fun h => h.2.1⟩

theorem Dangles.role (h : table.Dangles t) : t.role = .reference := by
  obtain ⟨text, index⟩ := t
  obtain ⟨name, rfl, -⟩ := h
  exact Token.role_stop name index

theorem address?_eq_none_iff {name : String} : table.address? name = none ↔ name ∉ table.names := by
  rw [address?, Option.map_eq_none_iff, find?_eq_none_iff]

theorem resolveToken_eq_error_iff (hrole : t.role = .reference) :
    table.resolveToken t = .error cause ↔ table.Refuses t cause := by
  obtain ⟨name, htext⟩ := Token.exists_name_of_reference hrole
  obtain ⟨text, index⟩ := t
  subst htext
  have hrefuses : table.Refuses ⟨"." ++ name, index⟩ cause ↔
      (name = "" ∧ cause = .malformed ⟨"." ++ name, index⟩) ∨
        (name ≠ "" ∧ name ∉ table.names ∧ cause = .unknownLabel index name) := by
    simp [Refuses]
  rw [hrefuses, resolveToken, Token.labelName_sigil (by decide), ← address?_eq_none_iff]
  by_cases hname : name = ""
  · simp [hname, bind, Except.bind, eq_comm]
  · rw [if_neg hname, ok_bind]
    cases table.address? name <;> simp [hname, eq_comm]

theorem rewrites_of_resolves (h : table.Resolves t t') : table.Rewrites t t' := by
  obtain ⟨hplain, rfl⟩ | ⟨name, address, htext, -, haddress, rfl⟩ := cases_of_resolves h
  · refine ⟨rfl, fun name htext => ?_, fun _ => rfl⟩
    exact absurd (htext ▸ hplain) (Token.not_isPlain_sigil (by decide) name)
  · refine ⟨rfl, fun name' htext' => ?_, fun hrole => ?_⟩
    · obtain rfl : name = name' := by simpa [htext] using htext'
      exact ⟨address, haddress, rfl, Word.ofText?_text address⟩
    · obtain ⟨text, index⟩ := t
      subst htext
      exact absurd (Token.role_stop name index) hrole

/-- The first of some tokens with a property is the first one or stands behind it. -/
theorem exists_first_cons_iff {P Q : Token → Prop} {rest : List Token} :
    (∃ before u after, t :: rest = before ++ u :: after ∧ (∀ v ∈ before, ¬ P v) ∧ Q u) ↔
      Q t ∨ ¬ P t ∧
        ∃ before u after, rest = before ++ u :: after ∧ (∀ v ∈ before, ¬ P v) ∧ Q u := by
  constructor
  · rintro ⟨before, u, after, hsplit, hbefore, hu⟩
    cases before with
    | nil =>
        cases hsplit
        exact .inl hu
    | cons first before =>
        cases hsplit
        obtain ⟨hfirst, hbefore⟩ := List.forall_mem_cons.mp hbefore
        exact .inr ⟨hfirst, before, u, after, rfl, hbefore, hu⟩
  · rintro (ht | ⟨ht, before, u, after, rfl, hbefore, hu⟩)
    · exact ⟨[], t, rest, rfl, List.forall_mem_nil _, ht⟩
    · exact ⟨t :: before, u, after, rfl, List.forall_mem_cons.mpr ⟨ht, hbefore⟩, hu⟩

/-- Resolving fails at the first token that dangles. -/
theorem resolve_eq_error_iff :
    table.resolve stream = .error cause ↔
      ∃ before t after, stream = before ++ t :: after ∧ (∀ u ∈ before, ¬ table.Dangles u) ∧
        table.Refuses t cause := by
  induction stream with
  | nil => simp [resolve]
  | cons t rest ih =>
      have hlater : ∀ t', ((table.resolve rest >>= fun later => pure (t' :: later)) =
          .error cause) ↔ table.resolve rest = .error cause := by
        intro t'
        rw [bind_eq_error_iff]
        simp [pure, Except.pure]
      rw [resolve, exists_first_cons_iff, ← ih]
      by_cases hrole : t.role = .reference
      · have hserved : ¬ table.Dangles t ↔ ∃ t', table.resolveToken t = .ok t' := by
          rw [dangles_iff]
          simp only [← resolveToken_eq_error_iff hrole]
          cases table.resolveToken t <;> simp
        simp only [hrole, bind_eq_error_iff (x := table.resolveToken t), hlater, hserved,
          resolveToken_eq_error_iff hrole, exists_and_right]
      · have hstays : ¬ table.Dangles t := fun h => hrole h.role
        have hgood : ¬ table.Refuses t cause := fun h => hstays (dangles_iff.mpr ⟨cause, h⟩)
        cases hkind : t.role with
        | reference => exact absurd hkind hrole
        | declaration => simp only [hstays, hgood, not_false_eq_true, true_and, false_or]
        | plain => simp only [hlater, hstays, hgood, not_false_eq_true, true_and, false_or]

/-- A stream is refused if and only if one of its tokens dangles. -/
theorem exists_refuses_iff :
    (∃ cause, table.resolve stream = .error cause) ↔ ∃ t ∈ stream, table.Dangles t := by
  classical
  constructor
  · rintro ⟨cause, h⟩
    obtain ⟨before, t, after, rfl, -, hrefuses⟩ := resolve_eq_error_iff.mp h
    exact ⟨t, by simp, dangles_iff.mpr ⟨cause, hrefuses⟩⟩
  · rintro ⟨t, ht, hdangles⟩
    have hfound : (stream.find? fun t => table.Dangles t).isSome :=
      List.find?_isSome.mpr ⟨t, ht, decide_eq_true hdangles⟩
    obtain ⟨first, hfirst⟩ := Option.isSome_iff_exists.mp hfound
    obtain ⟨hdangles, before, after, hsplit, hbefore⟩ := List.find?_eq_some_iff_append.mp hfirst
    obtain ⟨cause, hrefuses⟩ := dangles_iff.mp (of_decide_eq_true hdangles)
    refine ⟨cause, resolve_eq_error_iff.mpr ⟨before, first, after, hsplit, ?_, hrefuses⟩⟩
    intro u hu
    simpa using hbefore u hu

theorem exists_of_mem_resolved {resolved : List Token}
    (h : List.Forall₂ table.Resolves stream resolved) {t' : Token} (ht' : t' ∈ resolved) :
    ∃ t ∈ stream, table.Resolves t t' := by
  induction h with
  | nil => cases ht'
  | @cons t first rest _ hfirst _ ih =>
      rcases List.mem_cons.mp ht' with rfl | ht'
      · exact ⟨t, List.mem_cons_self, hfirst⟩
      · obtain ⟨u, hu, hresolves⟩ := ih ht'
        exact ⟨u, List.mem_cons_of_mem t hu, hresolves⟩

/-- Tokens without a sigil stay as they are. -/
theorem resolve_of_isPlain (h : ∀ t ∈ stream, Token.IsPlain t.text) :
    table.resolve stream = .ok stream := by
  have hkept : kept stream = stream := by
    rw [kept, List.filter_eq_self]
    intro t ht
    simp [Token.role_eq_plain (h t ht)]
  rw [resolve_eq_ok_iff, hkept, List.forall₂_same]
  intro t ht
  simp [Resolves, Token.role_eq_plain (h t ht)]

theorem isPlain_of_mem_resolved (h : List.Forall₂ table.Resolves stream resolved)
    (ht' : t' ∈ resolved) : Token.IsPlain t'.text := by
  obtain ⟨t, -, hresolves⟩ := exists_of_mem_resolved h ht'
  exact isPlain_of_resolves hresolves

/-- Resolving fails at the first reference that is to no label of the table.  Otherwise it
drops the declarations, writes each other token in its place with its index, and leaves no
sigil, so that every table resolves the outcome to itself. -/
theorem resolve_faithful (table : SymbolTable) (stream : List Token) :
    ((∃ cause, table.resolve stream = .error cause) ↔ ∃ t ∈ stream, table.Dangles t) ∧
    (∀ cause, table.resolve stream = .error cause ↔
      ∃ before t after, stream = before ++ t :: after ∧ (∀ u ∈ before, ¬ table.Dangles u) ∧
        table.Refuses t cause) ∧
    ∀ resolved, table.resolve stream = .ok resolved →
      List.Forall₂ table.Rewrites (stream.filter fun t => t.role ≠ .declaration) resolved ∧
      (∀ t ∈ resolved, t.role = .plain) ∧
      ∀ other : SymbolTable, other.resolve resolved = .ok resolved := by
  refine ⟨exists_refuses_iff, fun _ => resolve_eq_error_iff, ?_⟩
  intro resolved h
  have hresolves := resolve_eq_ok_iff.mp h
  have hplain : ∀ t ∈ resolved, Token.IsPlain t.text := fun t =>
    isPlain_of_mem_resolved hresolves
  exact ⟨hresolves.imp fun _ _ => rewrites_of_resolves,
    fun t ht => Token.role_eq_plain (hplain t ht), fun other => resolve_of_isPlain hplain⟩

/-- A colon that stands alone is dropped, and a full stop inside a word is no sigil. -/
theorem resolve_faithful_stray :
    SymbolTable.ofTokens (Source.tokens ":a exit :b exit") =
        .ok ⟨[⟨"a", 0, 0⟩, ⟨"b", 1, 2⟩]⟩ ∧
      List.Forall₂ (Rewrites ⟨[⟨"a", 0, 0⟩, ⟨"b", 1, 2⟩]⟩)
        [⟨".b", 2⟩, ⟨"x.y", 2⟩] [⟨"1", 2⟩, ⟨"x.y", 2⟩] ∧
      ∀ other : SymbolTable, other.resolve [⟨"1", 2⟩, ⟨"x.y", 2⟩] =
        .ok [⟨"1", 2⟩, ⟨"x.y", 2⟩] := by
  have htable : SymbolTable.ofTokens (Source.tokens ":a exit :b exit") =
      .ok ⟨[⟨"a", 0, 0⟩, ⟨"b", 1, 2⟩]⟩ := by cbv
  have hresolve : SymbolTable.resolve ⟨[⟨"a", 0, 0⟩, ⟨"b", 1, 2⟩]⟩
      [⟨":", 5⟩, ⟨".b", 2⟩, ⟨"x.y", 2⟩] = .ok [⟨"1", 2⟩, ⟨"x.y", 2⟩] := by cbv
  obtain ⟨hrewrites, -, hagain⟩ := (resolve_faithful _ _).2.2 _ hresolve
  exact ⟨htable, hrewrites, hagain⟩

end SymbolTable

end WordMachine
