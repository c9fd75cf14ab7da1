import Coursework.Decrypt.Search
import Coursework.Decrypt.Tests

/-!
# Legal matches that pass the tests

`containsNewline` also rejects words behind which a newline stands, or in front of which one stands
further than one character away (`Blemished`). The other legal matches are `Plain`, and these are
the matches that the tests accept, of texts whose rows show their words (`isMatch_iff_plain`).
Vocabulary and scope: `Coursework.Decrypt.Tests` and `Coursework.Decrypt.Search`.
-/

namespace Coursework.Decrypt

open Runs

/-- The words from number `s` on, as many as the crib has. -/
def stretch (ciphertext crib : List Char) (s : Nat) : List Entry :=
  ((entries ciphertext).drop s).take (words crib).length

/-- A newline in front of the words or behind them is not overlooked. -/
def Blemished (es : List Entry) : Prop :=
  (∃ e ∈ es.head?, '\n' ∈ e.gap.tail) ∨ ∃ e ∈ es.getLast?, e.next = some '\n'

/-- A legal match that `containsNewline` does not reject. -/
def Plain (ciphertext crib : List Char) (s : Nat) : Prop :=
  LegalAt ciphertext crib s ∧ ¬ Blemished (stretch ciphertext crib s)

/-- The array has a row for each word, and the first `m` rows show their words. -/
structure ShowsFirst (array : List (List Char)) (cstring : List Char) (m : Nat) : Prop where
  length_eq : array.length = (words cstring).length
  take_eq : array.take m = rows ((entries cstring).take m)
  shown : ∀ e ∈ (entries cstring).take m, e.Shown

/-- The lengths of the words. -/
def wordLengths (cstring : List Char) : List Int :=
  (words cstring).map fun word => (word.length : Int)

/-! ## The words and their rows -/

theorem map_letters_entriesFrom (gap : List Char) (runs : List (Run Char)) :
    (entriesFrom gap runs).map Entry.letters = runs.map Run.letters := by
  induction runs generalizing gap with
  | nil => rfl
  | cons r runs ih => exact congrArg (r.letters :: ·) (ih r.after.tail)

@[simp] theorem map_letters_entries (cstring : List Char) :
    (entries cstring).map Entry.letters = words cstring :=
  map_letters_entriesFrom _ _

@[simp] theorem length_entries (cstring : List Char) :
    (entries cstring).length = (words cstring).length := by
  rw [← map_letters_entries, List.length_map]

@[simp] theorem length_runs (cstring : List Char) :
    (runs cstring).length = (words cstring).length :=
  (List.length_map _).symm

@[simp] theorem length_wordLengths (cstring : List Char) :
    (wordLengths cstring).length = (words cstring).length :=
  List.length_map _

theorem lettersOf_eq (es : List Entry) : lettersOf es = (es.map Entry.letters).flatten :=
  List.flatMap_def

theorem map_letters_stretch (ciphertext crib : List Char) (s : Nat) :
    (stretch ciphertext crib s).map Entry.letters =
      ((words ciphertext).drop s).take (words crib).length := by
  rw [stretch, List.map_take, List.map_drop, map_letters_entries]

theorem take_entriesFrom (gap : List Char) (runs : List (Run Char)) (m : Nat) :
    (entriesFrom gap runs).take m = entriesFrom gap (runs.take m) := by
  induction runs generalizing gap m with
  | nil => simp [entriesFrom]
  | cons r runs ih =>
      cases m with
      | zero => rfl
      | succ m => exact congrArg (_ :: ·) (ih r.after.tail m)

theorem exists_drop_entriesFrom (gap : List Char) (runs : List (Run Char)) (s : Nat) :
    ∃ gap', (entriesFrom gap runs).drop s = entriesFrom gap' (runs.drop s) := by
  induction runs generalizing gap s with
  | nil => exact ⟨gap, by simp [entriesFrom]⟩
  | cons r runs ih =>
      cases s with
      | zero => exact ⟨gap, rfl⟩
      | succ s => exact ih r.after.tail s

/-- The rows of a stretch belong to its words. -/
theorem exists_stretch_eq (ciphertext crib : List Char) (s : Nat) :
    ∃ gap, stretch ciphertext crib s =
      entriesFrom gap (((runs ciphertext).drop s).take (words crib).length) := by
  obtain ⟨gap, hgap⟩ := exists_drop_entriesFrom (leading ciphertext) (runs ciphertext) s
  refine ⟨gap, ?_⟩
  rw [stretch, entries, hgap, take_entriesFrom]

/-- A row that is not too short and has no NUL in front of the word shows it. -/
theorem Entry.Tidy.shown {cstring : List Char} {e : Entry} (h : e.Tidy) (he : e ∈ entries cstring) :
    e.Shown := by
  have hword : e.letters ∈ words cstring := by
    rw [← map_letters_entries]
    exact List.mem_map_of_mem he
  obtain ⟨r, hr, hletters⟩ := List.mem_map.mp hword
  obtain ⟨hne, halpha, -⟩ := (proper_runs cstring).of_mem hr
  exact { toTidy := h, nonempty := hletters ▸ hne, isAlpha := hletters ▸ halpha }

theorem shown_of_tidy {cstring : List Char} (h : ∀ e ∈ entries cstring, e.Tidy) :
    ∀ e ∈ entries cstring, e.Shown :=
  fun e he => (h e he).shown he

/-- The word array of a text whose first rows show their words. -/
theorem showsFirst_of_tidy {cstring : List Char} {array : List (List Char)} {m : Nat}
    (hstart : cstring.head? ≠ some '\n') (h : createWordArray cstring = some array)
    (htidy : ∀ e ∈ (entries cstring).take m, e.Tidy) : ShowsFirst array cstring m := by
  refine ⟨(length_createWordArray h).trans (length_runs cstring),
    createWordArray_take hstart h fun e he => ?_,
    fun e he => (htidy e he).shown (List.mem_of_mem_take he)⟩
  have hfits := (htidy e he).fits
  simp only [Entry.visible, List.length_append, length_gapCells] at hfits
  omega

namespace ShowsFirst

variable {array : List (List Char)} {cstring : List Char} {m : Nat}

theorem length_wordOrder (h : ShowsFirst array cstring m) (memory : Nat → Int) :
    (wordOrder memory array).length = (wordLengths cstring).length := by
  rw [wordOrder, List.length_mapIdx, h.length_eq, length_wordLengths]

theorem wordOrder_take (h : ShowsFirst array cstring m) (memory : Nat → Int) :
    (wordOrder memory array).take m = (wordLengths cstring).take m := by
  rw [Decrypt.wordOrder_take, h.take_eq, wordOrder_eq memory h.shown, wordLengths,
    ← map_letters_entries, List.map_map, List.map_take]
  rfl

theorem justLetters_eq (h : ShowsFirst array cstring m) {s n : Nat} (hm : s + n ≤ m)
    (hle : s + n ≤ (words cstring).length) :
    justLetters s array n = some (letterArray (((entries cstring).drop s).take n)) := by
  rw [← length_entries, ← le_length_take hm] at hle
  rw [← justLetters_take array hm, h.take_eq, Decrypt.justLetters_eq h.shown hle, take_drop_take hm]

end ShowsFirst

/-! ## Newlines between the words -/

theorem mem_iff_head?_or_tail {c : Char} {l : List Char} :
    c ∈ l ↔ l.head? = some c ∨ c ∈ l.tail := by
  cases l with
  | nil => simp
  | cons a l => simp [eq_comm]

/-- The newlines behind the first word. -/
theorem newline_entriesFrom (gap : List Char) (r : Run Char) (runs : List (Run Char)) :
    (r.after.head? = some '\n' ∨
        ∃ e ∈ entriesFrom r.after.tail runs, '\n' ∈ e.gap ∨ e.next = some '\n') ↔
      (∃ r' ∈ (r :: runs).dropLast, '\n' ∈ r'.after) ∨
        ∃ e ∈ (entriesFrom gap (r :: runs)).getLast?, e.next = some '\n' := by
  induction runs generalizing gap r with
  | nil => simp [entriesFrom]
  | cons r' runs ih =>
      have hlast : (entriesFrom gap (r :: r' :: runs)).getLast? =
          (entriesFrom r.after.tail (r' :: runs)).getLast? := List.getLast?_cons_cons
      have hinner : (∃ x ∈ (r :: r' :: runs).dropLast, '\n' ∈ x.after) ↔
          '\n' ∈ r.after ∨ ∃ x ∈ (r' :: runs).dropLast, '\n' ∈ x.after := by
        rw [List.dropLast_cons_of_ne_nil (List.cons_ne_nil r' runs)]
        simp
      have hnext : (∃ e ∈ entriesFrom r.after.tail (r' :: runs),
          '\n' ∈ e.gap ∨ e.next = some '\n') ↔
          '\n' ∈ r.after.tail ∨ r'.after.head? = some '\n' ∨
            ∃ e ∈ entriesFrom r'.after.tail runs, '\n' ∈ e.gap ∨ e.next = some '\n' := by
        rw [entriesFrom]
        simp [or_assoc]
      rw [hlast, hinner, hnext, ih r.after.tail r', or_assoc, ← or_assoc, ← mem_iff_head?_or_tail]

/-- A newline that is not overlooked is between the words, or a blemish. -/
theorem interrupted_entriesFrom (gap : List Char) (runs : List (Run Char)) :
    Interrupted (entriesFrom gap runs) ↔
      (∃ r ∈ runs.dropLast, '\n' ∈ r.after) ∨ Blemished (entriesFrom gap runs) := by
  cases runs with
  | nil => simp [entriesFrom, Interrupted, Blemished]
  | cons r runs =>
      have hhead : (∃ e ∈ (entriesFrom gap (r :: runs)).head?, '\n' ∈ e.gap.tail) ↔
          '\n' ∈ gap.tail := by
        simp [entriesFrom]
      rw [Blemished, hhead, or_left_comm, ← newline_entriesFrom, entriesFrom, Interrupted, or_assoc]

theorem interrupted_stretch (ciphertext crib : List Char) (s : Nat) :
    Interrupted (stretch ciphertext crib s) ↔
      (∃ r ∈ (((runs ciphertext).drop s).take (words crib).length).dropLast, '\n' ∈ r.after) ∨
        Blemished (stretch ciphertext crib s) := by
  obtain ⟨gap, hgap⟩ := exists_stretch_eq ciphertext crib s
  rw [hgap]
  exact interrupted_entriesFrom gap _

/-! ## The tests -/

section Tests

variable {ciphertext crib : List Char} {s : Nat}

/-- The lengths fit up to the end of the crib. -/
theorem fitsToEnd_iff (hle : s + (words crib).length ≤ (words ciphertext).length) :
    FitsToEnd (wordLengths ciphertext) (wordLengths crib) s ↔
      (((words ciphertext).drop s).take (words crib).length).map List.length =
        (words crib).map List.length := by
  rw [List.ext_getElem?_iff, FitsToEnd, length_wordLengths, length_wordLengths]
  simp only [wordLengths, List.getElem?_map, List.getElem?_take,
    List.getElem?_drop]
  refine forall_congr' fun i => ?_
  by_cases hi : i < (words crib).length
  · have hsi : s + i < (words ciphertext).length := by omega
    simp only [hi, hsi, if_true, forall_const, List.getElem?_eq_getElem, Option.map_some,
      Option.some_inj, Int.natCast_inj]
  · simp [hi]

/-- The tests accept the legal matches without a blemish. -/
theorem plain_iff (hle : s + (words crib).length ≤ (words ciphertext).length)
    (hfits : FitsToEnd (wordLengths ciphertext) (wordLengths crib) s) :
    Plain ciphertext crib s ↔ ¬ Interrupted (stretch ciphertext crib s) ∧
      IsOneToOne (lettersOf (stretch ciphertext crib s)) (lettersOf (entries crib)) := by
  have hwords : (((runs ciphertext).drop s).take (words crib).length).map Run.letters =
      ((words ciphertext).drop s).take (words crib).length := by
    rw [List.map_take, List.map_drop]
    rfl
  have hlegal : LegalAt ciphertext crib s ↔
      (¬ ∃ r ∈ (((runs ciphertext).drop s).take (words crib).length).dropLast, '\n' ∈ r.after) ∧
        IsOneToOne (lettersOf (stretch ciphertext crib s)) (lettersOf (entries crib)) := by
    rw [LegalAt, Replaces, hwords, length_runs, lettersOf_eq, lettersOf_eq, map_letters_stretch,
      map_letters_entries]
    simp only [hle, (fitsToEnd_iff hle).mp hfits, true_and, not_exists, not_and]
  rw [Plain, hlegal, interrupted_stretch, not_or, and_right_comm]

theorem length_lettersOf_stretch (hle : s + (words crib).length ≤ (words ciphertext).length)
    (hfits : FitsToEnd (wordLengths ciphertext) (wordLengths crib) s) :
    (lettersOf (stretch ciphertext crib s)).length = (lettersOf (entries crib)).length := by
  rw [lettersOf_eq, lettersOf_eq, map_letters_stretch, map_letters_entries, List.length_flatten,
    List.length_flatten, (fitsToEnd_iff hle).mp hfits]

theorem isMatch_iff_plain {array : List (List Char)} {m : Nat}
    (harray : ShowsFirst array ciphertext m) (hm : s + (words crib).length ≤ m)
    (hne : words crib ≠ []) (hle : s + (words crib).length ≤ (words ciphertext).length)
    (hfits : FitsToEnd (wordLengths ciphertext) (wordLengths crib) s) :
    ∃ b, isMatch (wordLengths crib) array (letterArray (entries crib)) s = some b ∧
      (b = true ↔ Plain ciphertext crib s) := by
  have hentries : entries crib ≠ [] := by
    rw [← List.length_pos_iff, length_entries, List.length_pos_iff]
    exact hne
  have hlength := length_lettersOf_stretch hle hfits
  rw [plain_iff hle hfits, ← isMatch_take array hm (length_wordLengths crib), harray.take_eq]
  rw [stretch, ← take_drop_take hm, ← length_entries] at hlength ⊢
  rw [← length_entries crib] at hm
  rw [← length_entries, ← length_entries, ← le_length_take hm] at hle
  exact isMatch_eq harray.shown hentries (by simp) hle hlength

/-- A match of the search is a legal match without a blemish. -/
theorem matches_iff_plain :
    Matches (wordLengths ciphertext) (wordLengths crib) (Plain ciphertext crib) s ↔
      Plain ciphertext crib s := by
  rw [Matches, length_wordLengths, length_wordLengths]
  refine ⟨fun h => h.2.2, fun h => ?_⟩
  obtain ⟨⟨hle, -, hlengths, -⟩, -⟩ := id h
  rw [length_runs] at hle
  rw [List.map_take, List.map_drop] at hlengths
  exact ⟨hle, (fitsToEnd_iff hle).mpr hlengths, h⟩

theorem justLetters_crib (htidy : ∀ e ∈ entries crib, e.Tidy) :
    justLetters 0 (rows (entries crib)) (words crib).length =
      some (letterArray (entries crib)) := by
  rw [justLetters_eq (shown_of_tidy htidy) (by simp), List.drop_zero, List.take_of_length_le]
  simp

end Tests

end Coursework.Decrypt
