import Coursework.Decrypt.Words

/-!
# The rows of the word array

The row of a word holds a mark for each character in front of the word, the word, and an asterisk
if a newline follows (`Entry.cells`). `createWordArray_take` says so of the first rows, for texts
that do not start with a newline and whose first rows are long enough. A mark may be a NUL, which
ends the row for all functions that read it; the rows without are `Tidy`.
Vocabulary and scope: `Coursework.Decrypt.Words`.
-/

namespace Coursework.Decrypt

open Runs

/-- A word with the characters in front of it that belong to its row, and what follows it. -/
structure Entry where
  gap : List Char
  letters : List Char
  next : Option Char

/-- The words of a text with the characters of their rows. The character behind a word ends the
row. -/
def entriesFrom : List Char → List (Run Char) → List Entry
  | _, [] => []
  | gap, r :: runs => ⟨gap, r.letters, r.after.head?⟩ :: entriesFrom r.after.tail runs

/-- The words of a text. -/
def entries (cstring : List Char) : List Entry :=
  entriesFrom (leading cstring) (runs cstring)

/-- The cell for a character in front of a word, behind a cell. -/
def mark (previous : Option Char) (c : Char) : Char :=
  if c = '\n' then '*' else if previous = none ∨ previous = some '*' then '.' else '\x00'

/-- The cells for the characters in front of a word. -/
def gapCells : Option Char → List Char → List Char
  | _, [] => []
  | previous, c :: gap => mark previous c :: gapCells (some (mark previous c)) gap

namespace Entry

/-- The cell behind the word. -/
def last (e : Entry) : Char :=
  if e.next = some '\n' then '*' else '\x00'

/-- The cells of a row. -/
def cells (e : Entry) : List Char :=
  gapCells none e.gap ++ e.letters ++ [e.last]

/-- The cells that are not behind the word, and a newline. -/
def visible (e : Entry) : List Char :=
  gapCells none e.gap ++ e.letters ++ if e.next = some '\n' then ['*'] else []

/-- The row is complete and shows the word: no NUL stands in front of it, and one behind it. -/
structure Tidy (e : Entry) : Prop where
  noNul : '\x00' ∉ gapCells none e.gap
  fits : e.visible.length ≤ 80

end Entry

@[simp] theorem length_gapCells (previous : Option Char) (gap : List Char) :
    (gapCells previous gap).length = gap.length := by
  induction gap generalizing previous with
  | nil => rfl
  | cons c gap ih => simp [gapCells, ih]

section Characters

variable (front l : List Char)

theorem charAt_front (c : Char) : charAt (front ++ c :: l) front.length = some c := by
  simp [charAt]

theorem charBefore_front : charBefore (front ++ l) front.length = front.getLast? := by
  rw [charBefore]
  split
  case isTrue h =>
    rw [List.length_eq_zero_iff.mp h]
    rfl
  case isFalse h =>
    rw [charAt, List.append_assoc, List.getElem?_append_left (by omega), List.getLast?_eq_getElem?]

end Characters

section Rows

variable (front : List Char) {l : List Char}

/-- One character in front of a word. -/
theorem fillRow_mark {c : Char} (hc : c.isAlpha = false) (columns : Nat) (cells : List Char)
    (hfront : (front = [] ∧ cells = [] ∧ c ≠ '\n') ∨ ∃ x ∈ front.getLast?, x.isAlpha = false) :
    fillRow (front ++ c :: l) (columns + 1) cells front.length =
      fillRow (front ++ c :: l) columns (cells ++ [mark cells.getLast? c]) (front.length + 1) := by
  rw [fillRow, charAt_front]
  simp only [Option.bind_eq_bind, Option.bind_some, hc, Bool.false_eq_true, if_false, mark,
    List.getLast?_eq_none_iff, charBefore_front]
  by_cases hnewline : c = '\n'
  · obtain ⟨x, hx, hletter⟩ := hfront.resolve_left fun h => h.2.2 hnewline
    rw [if_pos hnewline, if_pos hnewline, Option.mem_def.mp hx]
    simp [hletter]
  · rw [if_neg hnewline, if_neg hnewline]
    split
    case isTrue => rfl
    case isFalse hcells =>
      obtain ⟨x, hx, hletter⟩ := hfront.resolve_left fun h => hcells (.inl h.2.1)
      rw [Option.mem_def.mp hx]
      simp [hletter]

/-- The characters in front of a word. -/
theorem fillRow_gap {gap : List Char} (hgap : ∀ c ∈ gap, c.isAlpha = false) (columns : Nat)
    (cells : List Char)
    (hfront : (front = [] ∧ cells = [] ∧ gap.head? ≠ some '\n') ∨
      ∃ x ∈ front.getLast?, x.isAlpha = false) :
    fillRow (front ++ (gap ++ l)) (columns + gap.length) cells front.length =
      fillRow (front ++ (gap ++ l)) columns (cells ++ gapCells cells.getLast? gap)
        (front.length + gap.length) := by
  induction gap generalizing front cells with
  | nil => simp [gapCells]
  | cons c gap ih =>
      rw [List.forall_mem_cons] at hgap
      have hmark := fillRow_mark front (l := gap ++ l) hgap.1 (columns + gap.length) cells
        (hfront.imp_left fun h => ⟨h.1, h.2.1, fun hc => h.2.2 (congrArg some hc)⟩)
      have hnext := ih (front ++ [c]) hgap.2 (cells ++ [mark cells.getLast? c])
        (.inr ⟨c, by simp, hgap.1⟩)
      have hcstring : front ++ c :: (gap ++ l) = front ++ [c] ++ (gap ++ l) := by simp
      rw [List.length_append, List.length_singleton, List.getLast?_concat, ← hcstring] at hnext
      rw [List.cons_append, List.length_cons, ← Nat.add_assoc, hmark, hnext, gapCells]
      simp [Nat.add_assoc, Nat.add_comm 1]

/-- The letters of a word. -/
theorem fillRow_letters {letters : List Char} (hletters : ∀ c ∈ letters, c.isAlpha = true)
    (columns : Nat) (cells : List Char) :
    fillRow (front ++ (letters ++ l)) (columns + letters.length) cells front.length =
      fillRow (front ++ (letters ++ l)) columns (cells ++ letters)
        (front.length + letters.length) := by
  induction letters generalizing front cells with
  | nil => simp
  | cons c letters ih =>
      rw [List.forall_mem_cons] at hletters
      have hnext := ih (front ++ [c]) hletters.2 (cells ++ [c])
      have hcstring : front ++ c :: (letters ++ l) = front ++ [c] ++ (letters ++ l) := by simp
      rw [List.length_append, List.length_singleton, ← hcstring] at hnext
      rw [List.cons_append, List.length_cons, ← Nat.add_assoc, fillRow, charAt_front]
      simp only [Option.bind_eq_bind, Option.bind_some, hletters.1, if_true]
      rw [hnext]
      simp [Nat.add_assoc, Nat.add_comm 1]

/-- The character behind a word ends its row. -/
theorem fillRow_last {x : Char} (hx : x.isAlpha = true) (hfront : front.getLast? = some x)
    {cells : List Char} (hcells : cells.getLast? = some x)
    (hl : ∀ c ∈ l.head?, c.isAlpha = false) (columns : Nat) :
    fillRow (front ++ l) (columns + 1) cells front.length =
      some (cells ++ [if l.head? = some '\n' then '*' else '\x00'], front.length + 1) := by
  have hchar : charAt (front ++ l) front.length = some (l.headD '\x00') := by
    cases l with
    | nil => simp [charAt]
    | cons c l => exact charAt_front _ _ c
  have hletter : (l.headD '\x00').isAlpha = false := by
    cases l with
    | nil => rfl
    | cons c l => exact hl c rfl
  have hnewline : l.headD '\x00' = '\n' ↔ l.head? = some '\n' := by
    cases l with
    | nil => simp
    | cons c l => simp
  rw [fillRow, hchar]
  simp only [Option.bind_eq_bind, Option.bind_some, hletter, Bool.false_eq_true, if_false,
    charBefore_front, hnewline, hfront, hcells, hx, if_true]
  split
  case isTrue => rfl
  case isFalse =>
    have hstar : x ≠ '*' := fun h => absurd (h ▸ hx) (by decide)
    have hne : cells ≠ [] := by
      rintro rfl
      cases hcells
    rw [if_neg (by simp [hne, hstar])]

/-- The row of a word. -/
theorem fillRow_entry {gap letters : List Char} (hgap : ∀ c ∈ gap, c.isAlpha = false)
    (hne : letters ≠ []) (hletters : ∀ c ∈ letters, c.isAlpha = true)
    (hl : ∀ c ∈ l.head?, c.isAlpha = false) (hfits : gap.length + letters.length ≤ 80)
    (hfront : (front = [] ∧ gap.head? ≠ some '\n') ∨ ∃ x ∈ front.getLast?, x.isAlpha = false) :
    fillRow (front ++ (gap ++ (letters ++ l))) nCols [] front.length =
      some ((⟨gap, letters, l.head?⟩ : Entry).cells,
        front.length + gap.length + letters.length + 1) := by
  obtain ⟨columns, hcolumns⟩ :=
    Nat.exists_eq_add_of_le (show gap.length + letters.length + 1 ≤ nCols from by
      rw [nCols]; omega)
  have hnCols : nCols = columns + 1 + letters.length + gap.length := by omega
  have hgapRow := fillRow_gap front (l := letters ++ l) hgap (columns + 1 + letters.length) []
    (hfront.imp_left fun h => ⟨h.1, rfl, h.2⟩)
  have hlettersRow := fillRow_letters (front ++ gap) (l := l) hletters (columns + 1)
    (gapCells none gap)
  -- the row ends behind the last letter
  have hlast : letters.getLast? = some (letters.getLast hne) :=
    List.getLast?_eq_some_getLast hne
  have hlastRow := fillRow_last (front ++ gap ++ letters) (l := l)
    (hletters _ (List.getLast_mem hne)) (by rw [List.getLast?_append, hlast]; rfl)
    (show (gapCells none gap ++ letters).getLast? = _ by rw [List.getLast?_append, hlast]; rfl)
    hl columns
  rw [hnCols, hgapRow, List.nil_append, List.getLast?_nil]
  simp only [List.append_assoc, List.length_append] at hlettersRow hlastRow
  rw [← Nat.add_assoc] at hlastRow
  rw [hlettersRow, hlastRow]
  simp [Entry.cells, Entry.last]

end Rows

/-! ## The whole array -/

/-- A text starts with a letter exactly if there is nothing in front of its first word. -/
theorem head?_isAlpha_iff (l : List Char) :
    l.head?.any Char.isAlpha = true ↔ leading l = [] ∧ runs l ≠ [] := by
  cases l with
  | nil => simp [runs, split]
  | cons a l =>
      rw [leading, runs, split]
      cases ha : a.isAlpha with
      | false => simp [ha]
      | true =>
          obtain ⟨hlead, -⟩ := consLetter_proper ha (split_proper l).1 (split_proper l).2
          rw [if_pos rfl]
          refine iff_of_true (by simp [ha]) ⟨hlead, ?_⟩
          generalize split Char.isAlpha l = x
          obtain ⟨lead, runs⟩ := x
          cases lead <;> cases runs <;> simp [consLetter]

/-- One more character is one more word if it is a letter and no letter follows. -/
theorem countWords_cons (a : Char) (l : List Char) :
    countWords (a :: l) =
      (if a.isAlpha && !l.head?.any Char.isAlpha then 1 else 0) + countWords l := by
  have hhead : charAt (a :: l) 1 = some (l.headD '\x00') := by
    cases l <;> rfl
  have hletter : (l.headD '\x00').isAlpha = l.head?.any Char.isAlpha := by
    cases l <;> rfl
  rw [countWords, List.length_cons, List.range_succ_eq_map, List.countP_cons, List.countP_map,
    Nat.add_comm]
  congr 1
  show (if _ then 1 else 0) = _
  rw [hhead, Option.any_some, hletter]
  rfl

/-- `countWords` counts the words. -/
theorem countWords_eq (cstring : List Char) : countWords cstring = (runs cstring).length := by
  induction cstring with
  | nil => rfl
  | cons a l ih =>
      rw [countWords_cons, ih]
      cases ha : a.isAlpha with
      | false => simp [runs, split, ha]
      | true =>
          have hhead := head?_isAlpha_iff l
          rw [leading, runs] at hhead
          rw [Bool.true_and, runs, runs, split, if_pos ha]
          generalize split Char.isAlpha l = x at hhead
          obtain ⟨lead, runs⟩ := x
          -- a word that starts here, unless the next word starts with the next character
          have hnew (h : ¬ (lead = [] ∧ runs ≠ [])) : l.head?.any Char.isAlpha = false := by
            rw [← Bool.not_eq_true, hhead]
            exact h
          cases lead with
          | cons b lead => simp [hnew (by simp), consLetter, Nat.add_comm]
          | nil =>
              cases runs with
              | nil => simp [hnew (by simp), consLetter]
              | cons r runs => simp [hhead.mpr ⟨rfl, List.cons_ne_nil r runs⟩, consLetter]

theorem length_fillRows {cstring : List Char} {rows placeIndicator : Nat}
    {array : List (List Char)} (h : fillRows cstring rows placeIndicator = some array) :
    array.length = rows := by
  induction rows generalizing placeIndicator array with
  | zero =>
      obtain rfl := Option.some_inj.mp h
      rfl
  | succ rows ih =>
      obtain ⟨⟨cells, placeIndicator'⟩, -, h⟩ := Option.bind_eq_some_iff.mp h
      obtain ⟨rest, hrest, h⟩ := Option.bind_eq_some_iff.mp h
      obtain rfl := Option.some_inj.mp h
      rw [List.length_cons, ih hrest]

/-- The rows of the first words of a text, if these rows are long enough. -/
theorem fillRows_take (front gap : List Char) {runs : List (Run Char)} {m : Nat}
    (hgap : ∀ c ∈ gap, c.isAlpha = false) (hruns : Proper Char.isAlpha runs)
    (hfits : ∀ e ∈ (entriesFrom gap runs).take m, e.gap.length + e.letters.length ≤ 80)
    (hfront : (front = [] ∧ gap.head? ≠ some '\n') ∨ ∃ x ∈ front.getLast?, x.isAlpha = false)
    {array : List (List Char)}
    (h : fillRows (front ++ (gap ++ text runs)) runs.length front.length = some array) :
    array.take m = ((entriesFrom gap runs).take m).map fun e => row e.cells := by
  induction runs generalizing front gap m array with
  | nil =>
      obtain rfl := Option.some_inj.mp h
      simp [entriesFrom]
  | cons r runs ih =>
      cases m with
      | zero => rfl
      | succ m =>
          obtain ⟨hne, hletters, hafter, hnext, hrest⟩ := hruns
          rw [entriesFrom, List.take_succ_cons, List.forall_mem_cons] at hfits
          have hhead := head?_of_proper ⟨hne, hletters, hafter, hnext, hrest⟩
          have hrow := fillRow_entry front hgap hne hletters hhead hfits.1 hfront
          rw [text_cons, List.append_assoc, List.length_cons, fillRows, hrow] at h
          simp only [Option.bind_eq_bind, Option.bind_some] at h
          obtain ⟨rest, hrows, h⟩ := Option.bind_eq_some_iff.mp h
          obtain rfl := Option.some_inj.mp h
          rw [entriesFrom, List.take_succ_cons, List.take_succ_cons, List.map_cons]
          cases hrunsEq : runs with
          | nil =>
              rw [hrunsEq] at hrows
              obtain rfl := Option.some_inj.mp hrows
              simp [entriesFrom]
          | cons r' runs' =>
              rw [← hrunsEq]
              obtain ⟨c, after, hc⟩ :=
                List.exists_cons_of_ne_nil (hnext (hrunsEq ▸ List.cons_ne_nil r' runs'))
              rw [hc, List.forall_mem_cons] at hafter
              rw [hc, List.tail_cons] at hfits ⊢
              have hcstring : front ++ gap ++ r.letters ++ [c] ++ (after ++ text runs) =
                  front ++ (gap ++ (r.letters ++ (r.after ++ text runs))) := by
                simp [hc]
              have hplace : (front ++ gap ++ r.letters ++ [c]).length =
                  front.length + gap.length + r.letters.length + 1 := by
                simp [Nat.add_assoc]
              rw [← hcstring, ← hplace] at hrows
              rw [ih (front ++ gap ++ r.letters ++ [c]) after hafter.2 hrest hfits.2
                (.inr ⟨c, by simp, hafter.1⟩) hrows]
              rfl

theorem length_createWordArray {cstring : List Char} {array : List (List Char)}
    (h : createWordArray cstring = some array) : array.length = (runs cstring).length := by
  rw [length_fillRows h, countWords_eq]

/-- The first rows of the word array, of texts whose first rows are long enough. -/
theorem createWordArray_take {cstring : List Char} {array : List (List Char)} {m : Nat}
    (hstart : cstring.head? ≠ some '\n') (h : createWordArray cstring = some array)
    (hfits : ∀ e ∈ (entries cstring).take m, e.gap.length + e.letters.length ≤ 80) :
    array.take m = ((entries cstring).take m).map fun e => row e.cells := by
  have hlead := (split_proper (p := Char.isAlpha) cstring).1
  have hhead : (leading cstring).head? ≠ some '\n' := by
    intro h
    refine hstart ?_
    rw [← text_runs cstring, List.head?_append, h]
    rfl
  refine fillRows_take [] (leading cstring) hlead (proper_runs cstring) hfits (.inl ⟨rfl, hhead⟩) ?_
  rwa [List.nil_append, text_runs, ← countWords_eq]

/-! ## Reading a row -/

theorem mem_gapCells_star {previous : Option Char} {gap : List Char} :
    '*' ∈ gapCells previous gap ↔ '\n' ∈ gap := by
  induction gap generalizing previous with
  | nil => simp [gapCells]
  | cons c gap ih =>
      have hmark : '*' = mark previous c ↔ '\n' = c := by
        rw [mark]
        split_ifs with hc <;> simp [hc, eq_comm]
      rw [gapCells, List.mem_cons, List.mem_cons, ih, hmark]

theorem isAlpha_of_mem_gapCells {previous : Option Char} {gap : List Char} {c : Char}
    (h : c ∈ gapCells previous gap) : c.isAlpha = false := by
  induction gap generalizing previous with
  | nil => cases h
  | cons a gap ih =>
      rcases List.mem_cons.mp h with rfl | h
      · rw [mark]
        split_ifs <;> rfl
      · exact ih h

namespace Entry

variable {e : Entry}

/-- A complete row shows what is visible, and NULs. -/
theorem row_cells (h : e.visible.length ≤ 80) :
    row e.cells = e.visible ++ List.replicate (nCols - e.visible.length) '\x00' := by
  rw [row, cells, last]
  rw [visible] at h ⊢
  split
  case isTrue => rfl
  case isFalse hnext =>
    rw [if_neg hnext, List.append_nil] at h
    obtain ⟨k, hk⟩ := Nat.exists_eq_add_of_le h
    have hbefore : nCols - (gapCells none e.gap ++ e.letters).length = k + 1 := by
      rw [nCols]; omega
    have hbehind : nCols - (gapCells none e.gap ++ e.letters ++ ['\x00']).length = k := by
      rw [nCols, List.length_append, List.length_singleton]; omega
    rw [hbehind, List.append_nil, hbefore, List.replicate_succ, List.append_assoc]
    rfl

/-- Behind what is visible there is a NUL. -/
theorem exists_row_cells (h : e.visible.length ≤ 80) :
    ∃ n, row e.cells = e.visible ++ '\x00' :: List.replicate n '\x00' := by
  obtain ⟨n, hn⟩ := Nat.exists_eq_add_of_lt (Nat.lt_succ_of_le h)
  refine ⟨n, ?_⟩
  rw [row_cells h, nCols, show 81 - e.visible.length = n + 1 by omega, List.replicate_succ]

theorem Tidy.nul_not_mem (h : e.Tidy) (hletters : ∀ c ∈ e.letters, c.isAlpha = true) :
    '\x00' ∉ e.visible := by
  have hword : '\x00' ∉ e.letters := fun hmem => absurd (hletters _ hmem) (by decide)
  rw [visible]
  split <;> simp [h.noNul, hword]

/-- The functions that read a row up to its first NUL read what is visible. -/
theorem Tidy.takeWhile (h : e.Tidy) (hletters : ∀ c ∈ e.letters, c.isAlpha = true) :
    (row e.cells).takeWhile (· ≠ '\x00') = e.visible := by
  obtain ⟨n, hrow⟩ := exists_row_cells h.fits
  rw [hrow, List.takeWhile_append_of_pos]
  · simp
  · intro c hc
    simp only [decide_eq_true_eq]
    rintro rfl
    exact h.nul_not_mem hletters hc

/-- The letters of a row. -/
theorem filter_visible (hletters : ∀ c ∈ e.letters, c.isAlpha = true) :
    e.visible.filter Char.isAlpha = e.letters := by
  have hgap : (gapCells none e.gap).filter Char.isAlpha = [] := by
    rw [List.filter_eq_nil_iff]
    intro c hc
    rw [isAlpha_of_mem_gapCells hc]
    exact Bool.false_ne_true
  have hlast : (if e.next = some '\n' then ['*'] else []).filter Char.isAlpha = [] := by
    split <;> rfl
  rw [visible, List.filter_append, List.filter_append, hgap, hlast,
    List.filter_eq_self.mpr hletters, List.append_nil, List.nil_append]

end Entry

end Coursework.Decrypt
