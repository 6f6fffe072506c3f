import Mathlib.Data.List.DropRight
import PagedStore.Text.Blank

/-!
# Words, pieces and trimmed texts

What the parts of a text are, said from the side of the text.  A text whose words are
`w :: ws` is blanks, the word `w`, and then the other words with blanks between
(`words_eq_cons_iff`, `Follows`).  A text whose trimmed form is `name` is `name` with blanks
before and after (`trim_eq_iff`).  The pieces of a text are the texts without a separator
that give it when they are joined (`pieces_eq_iff`).
-/

namespace PagedStore.Text

/-! ## Blanks -/

/-- There are only blanks. -/
def Blanks (text : List Char) : Prop := ∀ c ∈ text, isBlank c = true

/-- A word is not empty and has no blank. -/
structure IsWord (word : List Char) : Prop where
  ne_nil : word ≠ []
  no_blank : ∀ c ∈ word, isBlank c = false

/-- A text that begins and ends with no blank. -/
structure Trimmed (text : List Char) : Prop where
  head : ∀ c ∈ text.head?, isBlank c = false
  last : ∀ c ∈ text.getLast?, isBlank c = false

theorem blanks_nil : Blanks [] := fun _ h => absurd h List.not_mem_nil

theorem not_mem_of_blanks {text : List Char} {c : Char} (h : Blanks text)
    (hc : isBlank c = false) : c ∉ text :=
  fun hmem => Bool.false_ne_true (hc.symm.trans (h c hmem))

theorem head?_dropWhile_not_blank (text : List Char) :
    ∀ c ∈ (text.dropWhile isBlank).head?, isBlank c = false := by
  intro c hc
  have h := List.head?_dropWhile_not isBlank text
  rw [hc] at h
  exact h

/-! ## Trimming -/

theorem trim_eq_rdropWhile (text : List Char) :
    trim text = (text.dropWhile isBlank).rdropWhile isBlank := rfl

theorem trimmed_trim (text : List Char) : Trimmed (trim text) := by
  rw [trim_eq_rdropWhile]
  refine ⟨fun c hc => ?_, fun c hc => ?_⟩
  · obtain ⟨rest, hrest⟩ := List.rdropWhile_prefix isBlank (text.dropWhile isBlank)
    refine head?_dropWhile_not_blank text c ?_
    rw [← hrest, List.head?_append, Option.mem_def.1 hc]
    rfl
  · obtain ⟨hne, rfl⟩ := List.mem_getLast?_eq_getLast hc
    exact Bool.eq_false_iff.2 (List.rdropWhile_last_not isBlank _ hne)

theorem exists_eq_append_trim (text : List Char) :
    ∃ before after, Blanks before ∧ Blanks after ∧ text = before ++ trim text ++ after := by
  refine ⟨text.takeWhile isBlank, (text.dropWhile isBlank).rtakeWhile isBlank,
    fun c hc => List.mem_takeWhile_imp hc, fun c hc => List.mem_rtakeWhile_imp hc, ?_⟩
  rw [trim_eq_rdropWhile, List.append_assoc, List.rdropWhile_append_rtakeWhile,
    List.takeWhile_append_dropWhile]

theorem dropWhile_of_head {text : List Char} {p : Char → Bool}
    (h : ∀ c ∈ text.head?, p c = false) : text.dropWhile p = text := by
  cases text with
  | nil => rfl
  | cons c cs => exact List.dropWhile_cons_of_neg (by rw [h c rfl]; exact Bool.false_ne_true)

theorem trim_append {name before after : List Char} (hn : Trimmed name) (hb : Blanks before)
    (ha : Blanks after) : trim (before ++ name ++ after) = name := by
  rw [trim_eq_rdropWhile, List.append_assoc, List.dropWhile_append_of_pos hb]
  cases name with
  | nil => rw [List.nil_append, List.dropWhile_eq_nil_iff.2 ha]; rfl
  | cons c cs =>
      rw [dropWhile_of_head fun d hd => hn.head d (by simpa using hd), List.rdropWhile,
        List.reverse_append,
        List.dropWhile_append_of_pos fun d hd => ha d (List.mem_reverse.1 hd),
        dropWhile_of_head fun d hd => hn.last d (by rwa [List.head?_reverse] at hd),
        List.reverse_reverse]

/-- A text is its trimmed form with blanks around it. -/
theorem trim_eq_iff {text name : List Char} :
    trim text = name ↔ Trimmed name ∧
      ∃ before after, Blanks before ∧ Blanks after ∧ text = before ++ name ++ after := by
  constructor
  · rintro rfl
    exact ⟨trimmed_trim text, exists_eq_append_trim text⟩
  · rintro ⟨hn, before, after, hb, ha, rfl⟩
    exact trim_append hn hb ha

/-! ## Pieces -/

theorem pieces_eq_splitOnP (p : Char → Bool) (text : List Char) :
    pieces p text = text.splitOnP p := by
  induction text with
  | nil => rfl
  | cons c cs ih =>
      rw [pieces, List.splitOnP_cons_eq_if_modifyHead, ← ih]
      split
      · rfl
      · cases hp : pieces p cs with
        | nil => exact absurd hp (pieces_ne_nil p cs)
        | cons l ls => rfl

theorem not_of_mem_pieces {p : Char → Bool} {text piece : List Char}
    (h : piece ∈ pieces p text) : ∀ c ∈ piece, p c = false := by
  induction text generalizing piece with
  | nil =>
      rw [pieces, List.mem_singleton] at h
      rw [h]
      exact fun c hc => absurd hc List.not_mem_nil
  | cons d cs ih =>
      rw [pieces] at h
      split at h
      · rcases List.mem_cons.1 h with rfl | h
        · exact fun c hc => absurd hc List.not_mem_nil
        · exact ih h
      · rename_i hd
        split at h
        · rename_i hp
          exact absurd hp (pieces_ne_nil p cs)
        · rename_i l ls hp
          rcases List.mem_cons.1 h with rfl | h
          · intro c hc
            rcases List.mem_cons.1 hc with rfl | hc
            · exact Bool.eq_false_iff.2 hd
            · exact ih (hp ▸ List.mem_cons_self) c hc
          · exact ih (hp ▸ List.mem_cons_of_mem l h)

/-- The pieces are the texts without a separator that give the text when they are joined. -/
theorem pieces_eq_iff {s : Char} {text : List Char} {texts : List (List Char)} :
    pieces (· == s) text = texts ↔
      texts ≠ [] ∧ (∀ piece ∈ texts, s ∉ piece) ∧ List.intercalate [s] texts = text := by
  constructor
  · rintro rfl
    refine ⟨pieces_ne_nil _ _, fun piece hp hs => ?_, intercalate_pieces s text⟩
    exact Bool.false_ne_true ((not_of_mem_pieces hp s hs).symm.trans (beq_self_eq_true s))
  · rintro ⟨hne, hno, rfl⟩
    rw [pieces_eq_splitOnP, ← List.splitOn_eq_splitOnP]
    exact List.splitOn_intercalate s hno hne

/-! ## Words -/

/-- A blank ends a word. -/
theorem words_append_blank {c : Char} (hc : isBlank c = true) (x y : List Char) :
    words (x ++ c :: y) = words x ++ words y := by
  simp only [words, pieces_eq_splitOnP]
  rw [List.splitOnP_append_cons x y hc, List.filter_append]

theorem words_of_isWord {w : List Char} (h : IsWord w) : words w = [w] := by
  rw [words, pieces_eq_splitOnP, List.splitOnP_eq_singleton h.no_blank,
    List.filter_cons_of_pos (by simpa using h.ne_nil), List.filter_nil]

theorem words_blanks_append {blanks : List Char} (h : Blanks blanks) (text : List Char) :
    words (blanks ++ text) = words text := by
  induction blanks with
  | nil => rfl
  | cons c cs ih =>
      have hc := words_append_blank (h c List.mem_cons_self) [] (cs ++ text)
      exact hc.trans (ih fun d hd => h d (List.mem_cons_of_mem c hd))

theorem words_blanks {text : List Char} (h : Blanks text) : words text = [] := by
  have happ := words_blanks_append h []
  rw [List.append_nil] at happ
  exact happ

theorem words_isWord_append {w rest : List Char} (hw : IsWord w)
    (hrest : ∀ c ∈ rest.head?, isBlank c = true) : words (w ++ rest) = w :: words rest := by
  cases rest with
  | nil => rw [List.append_nil, words_of_isWord hw]; rfl
  | cons c cs =>
      have hc : isBlank c = true := hrest c rfl
      have hcs : words (c :: cs) = words cs := words_append_blank hc [] cs
      rw [words_append_blank hc, words_of_isWord hw, hcs, List.singleton_append]

/-- A text is blanks, or blanks and then a word that is ended by a blank or by the end. -/
theorem blanks_or_word (text : List Char) :
    Blanks text ∨ ∃ lead w rest, Blanks lead ∧ IsWord w ∧
      (∀ c ∈ rest.head?, isBlank c = true) ∧ text = lead ++ (w ++ rest) := by
  cases htext : text.dropWhile isBlank with
  | nil => exact .inl (List.dropWhile_eq_nil_iff.1 htext)
  | cons c cs =>
      have hc : isBlank c = false := head?_dropWhile_not_blank text c (by rw [htext]; rfl)
      let inWord : Char → Bool := fun d => !isBlank d
      refine .inr ⟨text.takeWhile isBlank, (c :: cs).takeWhile inWord,
        (c :: cs).dropWhile inWord, fun d hd => List.mem_takeWhile_imp hd,
        ⟨?_, fun d hd => ?_⟩, fun d hd => ?_, ?_⟩
      · rw [List.takeWhile_cons_of_pos (by simp [inWord, hc])]
        exact List.cons_ne_nil _ _
      · simpa [inWord] using List.mem_takeWhile_imp hd
      · have h := List.head?_dropWhile_not inWord (c :: cs)
        rw [hd] at h
        simpa [inWord] using h
      · rw [List.takeWhile_append_dropWhile, ← htext, List.takeWhile_append_dropWhile]

/-- A text is words with blanks before each of them, and blanks at its end. -/
inductive Follows : List (List Char) → List Char → Prop
  | nil {trail : List Char} (h : Blanks trail) : Follows [] trail
  | cons {gap w rest : List Char} {ws : List (List Char)} (hgap : Blanks gap) (hne : gap ≠ [])
      (hw : IsWord w) (hrest : Follows ws rest) : Follows (w :: ws) (gap ++ (w ++ rest))

theorem Follows.head {ws : List (List Char)} {text : List Char} (h : Follows ws text) :
    ∀ c ∈ text.head?, isBlank c = true := by
  cases h with
  | nil h => exact fun c hc => h c (List.mem_of_mem_head? hc)
  | cons hgap hne =>
      rename_i gap w rest ws
      intro c hc
      rw [List.head?_append_of_ne_nil _ hne] at hc
      exact hgap c (List.mem_of_mem_head? hc)

theorem Follows.words_eq {ws : List (List Char)} {text : List Char} (h : Follows ws text) :
    words text = ws := by
  induction h with
  | nil h => exact words_blanks h
  | cons hgap _ hw hrest ih =>
      rw [words_blanks_append hgap, words_isWord_append hw hrest.head, ih]

theorem follows_words {ws : List (List Char)} {text : List Char}
    (hhead : ∀ c ∈ text.head?, isBlank c = true) (h : words text = ws) : Follows ws text := by
  induction ws generalizing text with
  | nil =>
      rcases blanks_or_word text with hb | ⟨lead, w, rest, hl, hw, hr, rfl⟩
      · exact .nil hb
      · rw [words_blanks_append hl, words_isWord_append hw hr] at h
        cases h
  | cons w ws ih =>
      rcases blanks_or_word text with hb | ⟨lead, v, rest, hl, hv, hr, rfl⟩
      · rw [words_blanks hb] at h
        cases h
      · rw [words_blanks_append hl, words_isWord_append hv hr] at h
        obtain ⟨rfl, hws⟩ := List.cons.inj h
        refine .cons hl ?_ hv (ih hr hws)
        -- Without a blank in front the text would begin with the word.
        rintro rfl
        obtain ⟨c, cs, rfl⟩ := List.exists_cons_of_ne_nil hv.ne_nil
        exact Bool.false_ne_true
          ((hv.no_blank c List.mem_cons_self).symm.trans (hhead c rfl))

/-- A text with a first word is blanks, this word, and the other words after it. -/
theorem words_eq_cons_iff {w : List Char} {ws : List (List Char)} {text : List Char} :
    words text = w :: ws ↔ ∃ lead rest, Blanks lead ∧ IsWord w ∧ Follows ws rest ∧
      text = lead ++ (w ++ rest) := by
  constructor
  · intro h
    rcases blanks_or_word text with hb | ⟨lead, v, rest, hl, hv, hr, rfl⟩
    · rw [words_blanks hb] at h
      cases h
    · rw [words_blanks_append hl, words_isWord_append hv hr] at h
      obtain ⟨rfl, hws⟩ := List.cons.inj h
      exact ⟨lead, rest, hl, hv, follows_words hr hws, rfl⟩
  · rintro ⟨lead, rest, hl, hw, hrest, rfl⟩
    rw [words_blanks_append hl, words_isWord_append hw hrest.head, hrest.words_eq]

end PagedStore.Text
