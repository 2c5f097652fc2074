import Mathlib
import WordMachine.Source

/-!
# Source texts as words

A source text is its words with single spaces between them.  Any words without a space can
stand there, and the number that a token carries is its place among them.
-/

namespace WordMachine

namespace Token

/-- Texts as tokens, numbered from an index on. -/
def numbered : Nat → List String → List Token
  | _, [] => []
  | index, text :: rest => ⟨text, index⟩ :: numbered (index + 1) rest

@[simp]
theorem map_text_numbered (index : Nat) (texts : List String) :
    (numbered index texts).map Token.text = texts := by
  induction texts generalizing index with
  | nil => rfl
  | cons text rest ih => simp [numbered, ih]

@[simp]
theorem length_numbered (index : Nat) (texts : List String) :
    (numbered index texts).length = texts.length := by
  rw [← List.length_map (f := Token.text), map_text_numbered]

theorem getElem?_numbered (index : Nat) (texts : List String) (i : Nat) :
    (numbered index texts)[i]? = texts[i]?.map fun text => ⟨text, index + i⟩ := by
  induction texts generalizing index i with
  | nil => rfl
  | cons text rest ih =>
      cases i with
      | zero => rfl
      | succ i => simp only [numbered, List.getElem?_cons_succ, ih, Nat.succ_add_eq_add_succ]

theorem numbered_append (index : Nat) (texts rest : List String) :
    numbered index (texts ++ rest) =
      numbered index texts ++ numbered (index + texts.length) rest := by
  induction texts generalizing index with
  | nil => rfl
  | cons text texts ih =>
      simp only [List.cons_append, numbered, ih, List.length_cons]
      rw [Nat.add_right_comm, Nat.add_assoc]

theorem mapIdx_eq_numbered {A : Type} (f : A → String) (words : List A) (index : Nat) :
    words.mapIdx (fun i word => ⟨f word, index + i⟩) = numbered index (words.map f) := by
  induction words generalizing index with
  | nil => rfl
  | cons word rest ih =>
      simp only [List.mapIdx_cons, List.map_cons, numbered, ← ih, Nat.add_zero]
      simp only [Nat.add_comm, Nat.add_left_comm]

end Token

theorem length_splitOn (c : Char) (text : List Char) :
    (text.splitOn c).length = text.count c + 1 := by
  induction text with
  | nil => rfl
  | cons first rest ih =>
      rw [List.splitOn_cons_eq_if_modifyHead, List.count_cons]
      split
      · rw [List.length_cons, ih]
      · rw [List.length_modifyHead, ih, Nat.add_zero]

theorem notMem_of_mem_splitOn {c : Char} {text piece : List Char} (h : piece ∈ text.splitOn c) :
    c ∉ piece := by
  induction text generalizing piece with
  | nil => simp_all [List.splitOn_nil]
  | cons first rest ih =>
      rw [List.splitOn_cons_eq_if_modifyHead] at h
      split at h
      · rcases List.mem_cons.mp h with rfl | h
        · exact List.not_mem_nil
        · exact ih h
      · next hfirst =>
        obtain ⟨head, tail, hsplit⟩ := List.exists_cons_of_ne_nil (List.splitOn_ne_nil c rest)
        rw [hsplit, List.modifyHead_cons] at h
        rcases List.mem_cons.mp h with rfl | h
        · have hhead : c ∉ head := ih (by simp [hsplit])
          have hne : c ≠ first := fun heq => hfirst (by simp [heq])
          exact List.not_mem_cons_of_ne_of_not_mem hne hhead
        · exact ih (by simp [hsplit, h])

/-- Where two texts meet, the last piece of one and the first of the other are one piece. -/
theorem exists_splitOn_append (c : Char) (text rest : List Char) :
    ∃ front last first back, text.splitOn c = front ++ [last] ∧
      rest.splitOn c = first :: back ∧
      (text ++ rest).splitOn c = front ++ (last ++ first) :: back := by
  induction text with
  | nil =>
      obtain ⟨first, back, hrest⟩ := List.exists_cons_of_ne_nil (List.splitOn_ne_nil c rest)
      exact ⟨[], [], first, back, rfl, hrest, hrest⟩
  | cons head text ih =>
      obtain ⟨front, last, first, back, htext, hrest, hboth⟩ := ih
      rw [List.cons_append, List.splitOn_cons_eq_if_modifyHead,
        List.splitOn_cons_eq_if_modifyHead, htext, hboth]
      split
      · exact ⟨[] :: front, last, first, back, rfl, hrest, rfl⟩
      · cases front with
        | nil => exact ⟨[], head :: last, first, back, rfl, hrest, rfl⟩
        | cons line front => exact ⟨(head :: line) :: front, last, first, back, rfl, hrest, rfl⟩

theorem intercalate_flatten {texts : List (List String)} (hne : ∀ words ∈ texts, words ≠ []) :
    " ".intercalate (texts.map fun words => " ".intercalate words) =
      " ".intercalate texts.flatten := by
  induction texts with
  | nil => rfl
  | cons words rest ih =>
      obtain ⟨hwords, hrest⟩ := List.forall_mem_cons.mp hne
      cases rest with
      | nil => simp
      | cons next rest =>
          have hflat : (next :: rest).flatten ≠ [] := by
            simp [(List.forall_mem_cons.mp hrest).1]
          rw [List.map_cons, List.flatten_cons, String.intercalate_cons_of_ne_nil (by simp),
            String.intercalate_append_of_ne_nil hwords hflat, ih hrest]

namespace Source

variable {source : String} {t : Token}

theorem tokens_eq_numbered (source : String) :
    tokens source = Token.numbered 0 ((tokens source).map Token.text) := by
  rw [text_tokens, ← Token.mapIdx_eq_numbered]
  simp [tokens]

theorem length_tokens (source : String) : (tokens source).length = tokenCount source := by
  rw [tokens, List.length_mapIdx, length_splitOn, tokenCount]

theorem space_notMem_text (ht : t ∈ tokens source) : ' ' ∉ t.text.toList := by
  have htext : t.text ∈ (tokens source).map Token.text := List.mem_map_of_mem ht
  rw [text_tokens] at htext
  obtain ⟨word, hword, htext⟩ := List.mem_map.mp htext
  rw [← htext, String.toList_ofList]
  exact notMem_of_mem_splitOn hword

/-- The number of a token is its place. -/
theorem index_of_getElem? {i : Nat} (ht : (tokens source)[i]? = some t) : t.index = i := by
  rw [tokens_eq_numbered, Token.getElem?_numbered, Option.map_eq_some_iff] at ht
  obtain ⟨text, -, rfl⟩ := ht
  exact Nat.zero_add i

theorem getElem?_index (ht : t ∈ tokens source) : (tokens source)[t.index]? = some t := by
  obtain ⟨i, hi⟩ := List.mem_iff_getElem?.mp ht
  rw [index_of_getElem? hi, hi]

theorem pairwise_index_tokens (source : String) :
    (tokens source).Pairwise fun t t' => t.index < t'.index := by
  rw [List.pairwise_iff_getElem]
  intro i j hi hj hlt
  rw [index_of_getElem? (List.getElem?_eq_getElem hi),
    index_of_getElem? (List.getElem?_eq_getElem hj)]
  exact hlt

theorem map_text_tokens_intercalate {texts : List String} (hne : texts ≠ [])
    (hspace : ∀ s ∈ texts, ' ' ∉ s.toList) :
    (tokens (" ".intercalate texts)).map Token.text = texts := by
  have hwords : ∀ word ∈ texts.map String.toList, ' ' ∉ word := by
    intro word hword
    obtain ⟨s, hs, rfl⟩ := List.mem_map.mp hword
    exact hspace s hs
  have hid : String.ofList ∘ String.toList = id := by
    funext s
    exact String.ofList_toList
  rw [text_tokens, String.toList_intercalate]
  change ((List.intercalate [' '] (texts.map String.toList)).splitOn ' ').map String.ofList = texts
  rw [List.splitOn_intercalate ' ' hwords (by simpa using hne), List.map_map, hid, List.map_id]

/-- The words of two texts with a space between them are those of one and then the other. -/
theorem map_text_tokens_append (source rest : String) :
    (tokens (source ++ " " ++ rest)).map Token.text =
      (tokens source).map Token.text ++ (tokens rest).map Token.text := by
  have hne : ∀ text, (tokens text).map Token.text ≠ [] := by
    intro text
    simp [text_tokens, List.splitOn_ne_nil]
  have hspace : ∀ text, ∀ s ∈ (tokens text).map Token.text, ' ' ∉ s.toList := by
    intro text s hs
    obtain ⟨t, ht, rfl⟩ := List.mem_map.mp hs
    exact space_notMem_text ht
  have hjoined : " ".intercalate ((tokens source).map Token.text ++
      (tokens rest).map Token.text) = source ++ " " ++ rest := by
    rw [String.intercalate_append_of_ne_nil (hne source) (hne rest)]
    exact congrArg₂ (· ++ " " ++ ·) (ofTokens_tokens source) (ofTokens_tokens rest)
  rw [← hjoined]
  apply map_text_tokens_intercalate
  · exact List.append_ne_nil_of_left_ne_nil (hne source) _
  · intro s hs
    exact (List.mem_append.mp hs).elim (hspace source s) (hspace rest s)

/-- The words of texts with a space between each two are those of one after the other. -/
theorem map_text_tokens_intercalate_eq_flatMap {texts : List String} (hne : texts ≠ []) :
    (tokens (" ".intercalate texts)).map Token.text =
      texts.flatMap fun text => (tokens text).map Token.text := by
  induction texts with
  | nil => exact absurd rfl hne
  | cons text texts ih =>
      by_cases hlast : texts = []
      · simp [hlast]
      · rw [String.intercalate_cons_of_ne_nil hlast, map_text_tokens_append, ih hlast,
          List.flatMap_cons]

/-- Words that are joined are found again. -/
theorem tokens_ofTokens {stream : List Token} (hne : stream ≠ [])
    (hspace : ∀ t ∈ stream, ' ' ∉ t.text.toList) :
    tokens (ofTokens stream) = Token.numbered 0 (stream.map Token.text) := by
  have htexts : (tokens (ofTokens stream)).map Token.text = stream.map Token.text := by
    apply map_text_tokens_intercalate
    · simpa using hne
    · intro s hs
      obtain ⟨t, ht, rfl⟩ := List.mem_map.mp hs
      exact hspace t ht
  rw [tokens_eq_numbered, htexts]

end Source

end WordMachine
