import Coursework.Decrypt.Correctness
import Mathlib.Data.List.Chain

/-!
# When the word array is right

`wordArrayRight_iff` says for which texts the functions that read the word array see the words. A
row keeps a cell for every character in front of its word, and of two of them next to each other
that are no newlines the second leaves a NUL, which ends the row for its readers. The first row
that is not `Tidy` makes the array wrong, whatever the other rows are (`fillRows_tidy`).
Vocabulary and scope: `Coursework.Decrypt.Rows`.
-/

namespace Coursework.Decrypt

open Runs

/-- The letters of a row up to its first NUL. -/
def shownLetters (cells : List Char) : List Char :=
  (cells.takeWhile (· ≠ '\x00')).filter Char.isAlpha

/-- The array is made without an access outside the text, has a row for each word that shows it, and
gives the lengths of the words and the letters of the text, whatever is in the memory of the new
arrays. -/
def WordArrayRight (cstring : List Char) : Prop :=
  ∃ array, createWordArray cstring = some array ∧ array.map shownLetters = words cstring ∧
    (∀ memory, wordOrder memory array = wordLengths cstring) ∧
    ∃ n, justLetters 0 array array.length =
      some (cstring.filter Char.isAlpha ++ List.replicate n '\x00')

/-- Of the characters in front of a word, no two next to each other are other than newlines, and
with them, the word and a newline behind it, the row is no longer than a message. -/
structure Entry.WellSpaced (e : Entry) : Prop where
  single : e.gap.IsChain fun a b => a = '\n' ∨ b = '\n'
  fits : e.gap.length + e.letters.length + (if e.next = some '\n' then 1 else 0) ≤ 80

/-! ## Spacing -/

/-- The cells in front of a word contain no NUL, by induction on the characters: a cell is one if
neither its character nor that before is a newline. -/
theorem nul_not_mem_gapCells_iff (previous : Option Char) (gap : List Char) :
    '\x00' ∉ gapCells previous gap ↔ (gap.IsChain fun a b => a = '\n' ∨ b = '\n') ∧
      ((previous = none ∨ previous = some '*') ∨ ∀ c ∈ gap.head?, c = '\n') := by
  induction gap generalizing previous with
  | nil => simp [gapCells]
  | cons c gap ih =>
      have hmark : '\x00' = mark previous c ↔
          ¬ (c = '\n' ∨ previous = none ∨ previous = some '*') := by
        unfold mark
        split_ifs with hc hp
        · simp [hc]
        · simp [hp]
        · simp [hc, hp]
      have hstar (hcell : '\x00' ≠ mark previous c) :
          (some (mark previous c) = none ∨ some (mark previous c) = some '*') ↔ c = '\n' := by
        unfold mark at hcell ⊢
        split_ifs with hc hp
        · simp [hc]
        · simp [hc]
        · rw [if_neg hc, if_neg hp] at hcell
          exact absurd rfl hcell
      rw [gapCells, List.mem_cons, not_or, ih, List.isChain_cons]
      by_cases hcell : '\x00' = mark previous c
      · refine iff_of_false (fun h => h.1 hcell) fun h => ?_
        refine hmark.1 hcell ?_
        rcases h.2 with hprevious | hhead
        · exact .inr hprevious
        · exact .inl (hhead c rfl)
      · rw [hstar hcell]
        have hfree := not_not.1 (mt hmark.2 hcell)
        constructor
        · intro h
          obtain ⟨-, hchain, hnext⟩ := h
          refine ⟨⟨fun d hd => hnext.imp_right fun h => h d hd, hchain⟩, ?_⟩
          rcases hfree with hc | hprevious
          · right
            intro d hd
            cases hd
            exact hc
          · exact .inl hprevious
        · intro h
          obtain ⟨⟨hhead, hchain⟩, -⟩ := h
          refine ⟨hcell, hchain, ?_⟩
          by_cases hc : c = '\n'
          · exact .inl hc
          · exact .inr fun d hd => (hhead d hd).resolve_left hc

/-- The rows that show their words are those of well spaced ones. -/
theorem Entry.tidy_iff (e : Entry) : e.Tidy ↔ e.WellSpaced := by
  have hlength : e.visible.length =
      e.gap.length + e.letters.length + (if e.next = some '\n' then 1 else 0) := by
    rw [Entry.visible, List.length_append, List.length_append, length_gapCells]
    split <;> rfl
  constructor
  · intro h
    exact ⟨((nul_not_mem_gapCells_iff none e.gap).1 h.noNul).1, hlength ▸ h.fits⟩
  · intro h
    refine ⟨(nul_not_mem_gapCells_iff none e.gap).2 ⟨h.single, .inl (.inl rfl)⟩, ?_⟩
    rw [hlength]
    exact h.fits

/-! ## Rows that are read wrong -/

/-- The length that `wordOrder` gives for a row. -/
def readLength (memory : Int) (cells : List Char) : Int :=
  if '\x00' ∈ cells then ((cells.takeWhile (· ≠ '\x00')).countP Char.isAlpha : Int) else memory

theorem wordOrder_eq_map (memory : Int) (array : List (List Char)) :
    wordOrder (fun _ => memory) array = array.map (readLength memory) := by
  refine List.ext_getElem (by simp [wordOrder]) fun k _ _ => ?_
  simp [wordOrder, readLength]

/-- A row of all columns without a NUL is not read. -/
theorem readLength_full {cells : List Char} (hlength : cells.length = nCols)
    (hnul : '\x00' ∉ cells) (memory : Int) : readLength memory (row cells) = memory := by
  rw [row, hlength, Nat.sub_self, List.replicate_zero, List.append_nil, readLength, if_neg hnul]

/-- Of a row with a NUL in front of its letters, no letter is read. -/
theorem readLength_blind {cells : List Char} {first rest : List Char}
    (hcells : cells = first ++ rest) (hnul : '\x00' ∈ first)
    (hfirst : ∀ c ∈ first, c.isAlpha = false) (memory : Int) :
    readLength memory (row cells) = 0 := by
  obtain ⟨before, after, rfl, hbefore⟩ := List.eq_append_cons_of_mem hnul
  have hread : (row cells).takeWhile (· ≠ '\x00') = before := by
    rw [row, hcells, List.append_assoc, List.append_assoc, List.cons_append,
      List.takeWhile_append_of_pos]
    · simp
    · intro c hc
      simp only [decide_eq_true_eq]
      rintro rfl
      exact hbefore hc
  have hmem : '\x00' ∈ row cells := by simp [row, hcells]
  rw [readLength, if_pos hmem, hread, List.countP_eq_zero.2, Int.natCast_zero]
  intro c hc
  rw [hfirst c (List.mem_append_left _ hc)]
  exact Bool.false_ne_true

section Rows

variable (front : List Char) {gap letters l : List Char}

/-- The characters in front of a word take up the whole row. -/
theorem fillRow_long_gap (hgap : ∀ c ∈ gap, c.isAlpha = false)
    (hfront : (front = [] ∧ gap.head? ≠ some '\n') ∨ ∃ x ∈ front.getLast?, x.isAlpha = false)
    (hlong : nCols ≤ gap.length) :
    fillRow (front ++ (gap ++ l)) nCols [] front.length =
      some (gapCells none (gap.take nCols), front.length + nCols) := by
  have hlength : (gap.take nCols).length = nCols := List.length_take_of_le hlong
  have hhead (hstart : gap.head? ≠ some '\n') : (gap.take nCols).head? ≠ some '\n' := by
    rwa [List.head?_take, if_neg (show ¬ nCols = 0 by decide)]
  have hrow := fillRow_gap front (l := gap.drop nCols ++ l)
    (fun c hc => hgap c (List.mem_of_mem_take hc)) 0 []
    (hfront.imp_left fun hstart => ⟨hstart.1, rfl, hhead hstart.2⟩)
  rwa [← List.append_assoc (gap.take nCols), List.take_append_drop, hlength, Nat.zero_add] at hrow

/-- The row ends inside the word. -/
theorem fillRow_long_word (hgap : ∀ c ∈ gap, c.isAlpha = false)
    (hletters : ∀ c ∈ letters, c.isAlpha = true)
    (hfront : (front = [] ∧ gap.head? ≠ some '\n') ∨ ∃ x ∈ front.getLast?, x.isAlpha = false)
    {columns : Nat} (hcolumns : nCols = columns + gap.length) (hlong : columns ≤ letters.length) :
    fillRow (front ++ (gap ++ (letters ++ l))) nCols [] front.length =
      some (gapCells none gap ++ letters.take columns, front.length + gap.length + columns) := by
  have hlength : (letters.take columns).length = columns := List.length_take_of_le hlong
  have hfirst : ∀ c ∈ letters.take columns, c.isAlpha = true :=
    fun c hc => hletters c (List.mem_of_mem_take hc)
  have hgapRow := fillRow_gap front (l := letters ++ l) hgap columns []
    (hfront.imp_left fun hstart => ⟨hstart.1, rfl, hstart.2⟩)
  have hrow := fillRow_letters (front ++ gap) (l := letters.drop columns ++ l) hfirst 0
    (gapCells none gap)
  rw [← List.append_assoc (letters.take columns), List.take_append_drop, hlength, Nat.zero_add,
    List.append_assoc, List.length_append] at hrow
  rw [hcolumns, hgapRow]
  exact hrow

/-- A row that gives the length of its word is complete and shows the word. -/
theorem tidy_of_readLength (hgap : ∀ c ∈ gap, c.isAlpha = false) (hne : letters ≠ [])
    (hletters : ∀ c ∈ letters, c.isAlpha = true) (hl : ∀ c ∈ l.head?, c.isAlpha = false)
    (hfront : (front = [] ∧ gap.head? ≠ some '\n') ∨ ∃ x ∈ front.getLast?, x.isAlpha = false)
    {passed : List Char} {place : Nat}
    (h : fillRow (front ++ (gap ++ (letters ++ l))) nCols [] front.length = some (passed, place))
    (hread : readLength (-1) (row passed) = letters.length) :
    (⟨gap, letters, l.head?⟩ : Entry).Tidy := by
  have hpos : 0 < letters.length := List.length_pos_iff.2 hne
  -- a NUL is read, and not in front of the letters
  have hseen (hlength : passed.length = nCols) : '\x00' ∈ passed := by
    by_contra hnul
    rw [readLength_full hlength hnul] at hread
    omega
  have hblind {first rest : List Char} (hpassed : passed = first ++ rest)
      (hfirst : ∀ c ∈ first, c.isAlpha = false) : '\x00' ∉ first := by
    intro hnul
    rw [readLength_blind hpassed hnul hfirst] at hread
    omega
  have hword : '\x00' ∉ letters := fun hmem => absurd (hletters _ hmem) (by decide)
  by_cases hlongGap : nCols ≤ gap.length
  · rw [fillRow_long_gap front hgap hfront hlongGap] at h
    cases h
    refine absurd (hseen ?_) (hblind (List.append_nil _).symm fun c => isAlpha_of_mem_gapCells)
    rw [length_gapCells, List.length_take_of_le hlongGap]
  · by_cases hends : gap.length + letters.length ≤ 80
    · rw [fillRow_entry front hgap hne hletters hl hends hfront] at h
      cases h
      have hnul : '\x00' ∉ gapCells none gap :=
        hblind (List.append_assoc _ _ _) fun c => isAlpha_of_mem_gapCells
      refine ⟨hnul, ?_⟩
      rw [Entry.visible]
      split
      case isTrue hnext =>
        -- the asterisk does not stand in the last column
        by_contra hfits
        have hfull : (⟨gap, letters, l.head?⟩ : Entry).cells.length = nCols := by
          simp only [List.length_append, length_gapCells, List.length_singleton] at hfits
          simp only [Entry.cells, List.length_append, length_gapCells, List.length_singleton, nCols]
          omega
        have hcells := hseen hfull
        rw [Entry.cells, Entry.last, if_pos hnext] at hcells
        simp [hnul, hword] at hcells
      case isFalse =>
        rw [List.append_nil, List.length_append, length_gapCells]
        exact hends
    · obtain ⟨columns, hcolumns⟩ := Nat.exists_eq_add_of_le (Nat.le_of_not_le hlongGap)
      have hlong : columns ≤ letters.length := by
        rw [nCols] at hcolumns
        omega
      rw [fillRow_long_word front hgap hletters hfront (hcolumns.trans (Nat.add_comm _ _)) hlong]
        at h
      cases h
      have hnul : '\x00' ∉ gapCells none gap := hblind rfl fun c => isAlpha_of_mem_gapCells
      refine absurd (hseen ?_) fun hmem => ?_
      · rw [List.length_append, length_gapCells, List.length_take_of_le hlong, hcolumns]
      · rcases List.mem_append.1 hmem with hmem | hmem
        · exact hnul hmem
        · exact hword (List.mem_of_mem_take hmem)

/-- If all rows give the lengths of their words, then they show them. -/
theorem fillRows_tidy {runs : List (Run Char)} (hgap : ∀ c ∈ gap, c.isAlpha = false)
    (hruns : Proper Char.isAlpha runs)
    (hfront : (front = [] ∧ gap.head? ≠ some '\n') ∨ ∃ x ∈ front.getLast?, x.isAlpha = false)
    {array : List (List Char)}
    (h : fillRows (front ++ (gap ++ text runs)) runs.length front.length = some array)
    (hread : array.map (readLength (-1)) = runs.map fun r => (r.letters.length : Int)) :
    ∀ e ∈ entriesFrom gap runs, e.Tidy := by
  induction runs generalizing front gap array with
  | nil => exact List.forall_mem_nil _
  | cons r runs ih =>
      obtain ⟨hne, hletters, hafter, hnext, hrest⟩ := hruns
      have hhead := head?_of_proper ⟨hne, hletters, hafter, hnext, hrest⟩
      rw [text_cons, List.append_assoc, List.length_cons, fillRows] at h
      obtain ⟨⟨passed, place⟩, hrow, h⟩ := Option.bind_eq_some_iff.1 h
      obtain ⟨rest, hrows, h⟩ := Option.bind_eq_some_iff.1 h
      cases h
      rw [List.map_cons, List.map_cons, List.cons_eq_cons] at hread
      have htidy := tidy_of_readLength front hgap hne hletters hhead hfront hrow hread.1
      rw [entriesFrom, List.forall_mem_cons]
      cases hrunsEq : runs with
      | nil =>
          rw [hrunsEq, text_nil, List.append_nil] at htidy
          exact ⟨htidy, List.forall_mem_nil _⟩
      | cons r' runs' =>
          rw [← hrunsEq]
          obtain ⟨c, after, hc⟩ :=
            List.exists_cons_of_ne_nil (hnext (hrunsEq ▸ List.cons_ne_nil r' runs'))
          rw [hc, List.forall_mem_cons] at hafter
          rw [hc] at htidy ⊢
          refine ⟨htidy, ?_⟩
          -- the next row starts behind the character that ends this one
          have hfits := htidy.fits
          simp only [Entry.visible, List.length_append, length_gapCells] at hfits
          rw [fillRow_entry front hgap hne hletters hhead (by omega) hfront, Option.some_inj,
            Prod.mk.injEq] at hrow
          have hcstring : front ++ (gap ++ (r.letters ++ (r.after ++ text runs))) =
              front ++ gap ++ r.letters ++ [c] ++ (after ++ text runs) := by
            simp [hc]
          have hplace : place = (front ++ gap ++ r.letters ++ [c]).length := by
            rw [← hrow.2]
            simp [Nat.add_assoc]
          rw [hcstring, hplace] at hrows
          exact ih (front ++ gap ++ r.letters ++ [c]) hafter.2 hrest (.inr ⟨c, by simp, hafter.1⟩)
            hrows hread.2

end Rows

/-! ## The whole array -/

section WordArray

variable {cstring : List Char}

theorem flatten_words (cstring : List Char) :
    (words cstring).flatten = cstring.filter Char.isAlpha := by
  have hlead : (leading cstring).filter Char.isAlpha = [] := by
    rw [List.filter_eq_nil_iff]
    intro c hc
    rw [(split_proper (p := Char.isAlpha) cstring).1 c hc]
    exact Bool.false_ne_true
  conv_rhs => rw [← text_runs cstring, List.filter_append, hlead, List.nil_append,
    (proper_runs cstring).filter_text]
  rfl

/-- A text without words has no rows. -/
theorem wordArrayRight_of_wordless (h : words cstring = []) : WordArrayRight cstring := by
  have harray : createWordArray cstring = some [] := by
    rw [createWordArray, countWords_eq_zero_iff.2 h]
    rfl
  refine ⟨[], harray, h.symm, fun memory => ?_, 0, ?_⟩
  · rw [wordLengths, h]
    rfl
  · rw [← flatten_words, h]
    rfl

theorem wordArrayRight_of_tidy (hstart : cstring.head? ≠ some '\n')
    (htidy : ∀ e ∈ entries cstring, e.Tidy) : WordArrayRight cstring := by
  have hshown := shown_of_tidy htidy
  refine ⟨rows (entries cstring), createWordArray_of_tidy hstart htidy, ?_,
    wordOrder_of_tidy htidy, ?_⟩
  · rw [rows, List.map_map, ← map_letters_entries]
    refine List.map_congr_left fun e he => ?_
    show shownLetters (row e.cells) = e.letters
    rw [shownLetters, (hshown e he).takeWhile (hshown e he).isAlpha,
      Entry.filter_visible (hshown e he).isAlpha]
  · have hletters : lettersOf (entries cstring) = cstring.filter Char.isAlpha := by
      rw [lettersOf_eq, map_letters_entries, flatten_words]
    have harray := justLetters_eq hshown (s := 0) (m := (entries cstring).length) (by omega)
    rw [List.drop_zero, List.take_length, letterArray, hletters] at harray
    have hlength : (rows (entries cstring)).length = (entries cstring).length := List.length_map _
    rw [hlength]
    exact ⟨_, harray⟩

/-- The rows of an array that is right show their words. -/
theorem tidy_of_wordArrayRight (hwords : words cstring ≠ []) (h : WordArrayRight cstring) :
    cstring.head? ≠ some '\n' ∧ ∀ e ∈ entries cstring, e.Tidy := by
  obtain ⟨array, harray, -, hlengths, -⟩ := h
  have hstart : cstring.head? ≠ some '\n' := by
    intro hstart
    rw [createWordArray_eq_none (mt countWords_eq_zero_iff.1 hwords) hstart] at harray
    cases harray
  refine ⟨hstart, ?_⟩
  have hhead : (leading cstring).head? ≠ some '\n' := by
    intro hhead
    refine hstart ?_
    rw [← text_runs cstring, List.head?_append, hhead]
    rfl
  -- what `wordOrder` gives for a row that it does not read can be no length
  have hread := hlengths fun _ => -1
  rw [wordOrder_eq_map, wordLengths, words, List.map_map] at hread
  rw [createWordArray, countWords_eq] at harray
  rw [entries]
  refine fillRows_tidy [] (split_proper (p := Char.isAlpha) cstring).1 (proper_runs cstring)
    (.inl ⟨rfl, hhead⟩) ?_ hread
  rw [List.nil_append, text_runs]
  exact harray

end WordArray

theorem wordArrayRight_iff (cstring : List Char) :
    WordArrayRight cstring ↔ words cstring = [] ∨
      (cstring.head? ≠ some '\n' ∧ ∀ e ∈ entries cstring, e.WellSpaced) := by
  simp only [← Entry.tidy_iff]
  constructor
  · intro h
    by_cases hwords : words cstring = []
    · exact .inl hwords
    · exact .inr (tidy_of_wordArrayRight hwords h)
  · rintro (hwords | ⟨hstart, htidy⟩)
    · exact wordArrayRight_of_wordless hwords
    · exact wordArrayRight_of_tidy hstart htidy

/-- The third of three spaces between two words hides the second word. -/
theorem spaces_hide_word :
    MessagesFit "a   b".toList ∧ ¬ WordArrayRight "a   b".toList := by
  have hfits : MessagesFit "a   b".toList := by
    rw [MessagesFit]
    decide
  refine ⟨hfits, fun h => ?_⟩
  obtain ⟨array, harray, -, hlengths, -⟩ := h
  have hread := hlengths fun _ => 0
  have hrows : createWordArray "a   b".toList =
      some [row ['a', '\x00'], row ['.', '\x00', 'b', '\x00']] := by rfl
  rw [hrows, Option.some_inj] at harray
  subst harray
  revert hread
  decide

end Coursework.Decrypt
