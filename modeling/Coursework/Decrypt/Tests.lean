import Coursework.Decrypt.Rows
import Mathlib.Data.List.GetD

/-!
# The tests of a possible match

What `wordOrder`, `justLetters`, `containsNewline` and `isSimpleSub` compute from rows that show
their words. `containsNewline` looks for an asterisk in any cell but the first (`Interrupted`), so
it also finds a newline behind the last word or further in front of the first one.
`isMatch_eq` puts the tests together.
Vocabulary and scope: `Coursework.Decrypt.Rows`.
-/

namespace Coursework.Decrypt

/-- The rows of some words. -/
def rows (es : List Entry) : List (List Char) :=
  es.map fun e => row e.cells

/-- The row shows its word. -/
structure Entry.Shown (e : Entry) : Prop extends e.Tidy where
  nonempty : e.letters ≠ []
  isAlpha : ∀ c ∈ e.letters, c.isAlpha = true

/-- The letters of some words. -/
def lettersOf (es : List Entry) : List Char :=
  es.flatMap Entry.letters

/-- An array that `justLetters` fills. -/
def letterArray (es : List Entry) : List Char :=
  lettersOf es ++ List.replicate (nCols * es.length - (lettersOf es).length) '\x00'

instance (cipher crib : List Char) : Decidable (IsOneToOne cipher crib) :=
  inferInstanceAs (Decidable (∀ x ∈ cipher.zip crib, ∀ y ∈ cipher.zip crib, _ ↔ _))

/-- There is a newline in the rows that `containsNewline` does not overlook. -/
def Interrupted : List Entry → Prop
  | [] => False
  | e :: es => ('\n' ∈ e.gap.tail ∨ e.next = some '\n') ∨
      ∃ e' ∈ es, '\n' ∈ e'.gap ∨ e'.next = some '\n'

/-- The lengths of the words. -/
theorem wordOrder_eq (memory : Nat → Int) {es : List Entry} (hes : ∀ e ∈ es, e.Shown) :
    wordOrder memory (rows es) = es.map fun e => (e.letters.length : Int) := by
  rw [wordOrder, rows]
  induction es generalizing memory with
  | nil => rfl
  | cons e es ih =>
      rw [List.forall_mem_cons] at hes
      obtain ⟨n, hrow⟩ := Entry.exists_row_cells hes.1.fits
      have hnul : '\x00' ∈ row e.cells := by simp [hrow]
      rw [List.map_cons, List.mapIdx_cons, if_pos hnul, hes.1.takeWhile hes.1.isAlpha,
        List.countP_eq_length_filter, Entry.filter_visible hes.1.isAlpha, List.map_cons]
      exact congrArg _ (ih (fun k => memory (k + 1)) hes.2)

/-- The letters of consecutive words. -/
theorem justLetters_eq {es : List Entry} (hes : ∀ e ∈ es, e.Shown) {s m : Nat}
    (hle : s + m ≤ es.length) :
    justLetters s (rows es) m = some (letterArray ((es.drop s).take m)) := by
  have hlength : (rows es).length = es.length := List.length_map _
  have htake : ((es.drop s).take m).length = m := by
    rw [List.length_take, List.length_drop]
    omega
  have hletters : (((rows es).drop s).take m).flatMap (fun cells =>
      (cells.takeWhile (· ≠ '\x00')).filter Char.isAlpha) = lettersOf ((es.drop s).take m) := by
    rw [rows, ← List.map_drop, ← List.map_take, List.flatMap_map, lettersOf]
    refine List.flatMap_congr fun e he => ?_
    have hshown := hes e (List.mem_of_mem_drop (List.mem_of_mem_take he))
    rw [hshown.takeWhile hshown.isAlpha, Entry.filter_visible hshown.isAlpha]
  rw [justLetters, hlength, if_pos hle, hletters, letterArray, htake]

/-- The array has a NUL behind the letters. -/
theorem lettersOf_length_lt {es : List Entry} (hes : ∀ e ∈ es, e.Shown) (hne : es ≠ []) :
    (lettersOf es).length < nCols * es.length := by
  have hle : (lettersOf es).length ≤ 80 * es.length := by
    rw [lettersOf]
    clear hne
    induction es with
    | nil => simp
    | cons e es ih =>
        rw [List.forall_mem_cons] at hes
        have hfits := hes.1.fits
        have hrest := ih hes.2
        simp only [Entry.visible, List.length_append] at hfits
        rw [List.flatMap_cons, List.length_append, List.length_cons]
        omega
  have hpos := List.length_pos_iff.mpr hne
  rw [nCols]
  omega

theorem lettersOf_ne_nil {es : List Entry} (hes : ∀ e ∈ es, e.Shown) (hne : es ≠ []) :
    lettersOf es ≠ [] := by
  obtain ⟨e, rest, rfl⟩ := List.exists_cons_of_ne_nil hne
  rw [lettersOf, List.flatMap_cons]
  exact List.append_ne_nil_of_left_ne_nil (hes e List.mem_cons_self).nonempty _

theorem isAlpha_of_mem_lettersOf {es : List Entry} (hes : ∀ e ∈ es, e.Shown) {c : Char}
    (hc : c ∈ lettersOf es) : c.isAlpha = true := by
  obtain ⟨e, he, hc⟩ := List.mem_flatMap.mp hc
  exact (hes e he).isAlpha c hc

/-- The letters in front of a NUL. -/
theorem strlen_append {l : List Char} (hnul : '\x00' ∉ l) (x : List Char) :
    strlen (l ++ '\x00' :: x) = some l.length := by
  rw [strlen, if_pos (by simp), List.takeWhile_append_of_pos]
  · simp
  · intro c hc
    simp only [decide_eq_true_eq]
    rintro rfl
    exact hnul hc

theorem nul_not_mem_of_isAlpha {l : List Char} (h : ∀ c ∈ l, c.isAlpha = true) : '\x00' ∉ l :=
  fun hmem => absurd (h _ hmem) (by decide)

theorem exists_letterArray {es : List Entry} (hes : ∀ e ∈ es, e.Shown) (hne : es ≠ []) :
    ∃ x, letterArray es = lettersOf es ++ '\x00' :: x := by
  obtain ⟨n, hn⟩ := Nat.exists_eq_add_of_lt (lettersOf_length_lt hes hne)
  refine ⟨List.replicate n '\x00', ?_⟩
  rw [letterArray, hn, show (lettersOf es).length + n + 1 - (lettersOf es).length = n + 1 by
    omega, List.replicate_succ]

theorem strlen_letterArray {es : List Entry} (hes : ∀ e ∈ es, e.Shown) (hne : es ≠ []) :
    strlen (letterArray es) = some (lettersOf es).length := by
  obtain ⟨x, hx⟩ := exists_letterArray hes hne
  rw [hx]
  exact strlen_append (nul_not_mem_of_isAlpha fun c => isAlpha_of_mem_lettersOf hes) x

/-! ## Simple substitution -/

/-- The letters at two places belong together one to one. -/
theorem isSimpleAt_iff (cipher crib : List Char) (k j : Nat) :
    isSimpleAt cipher crib k j = true ↔
      ((cipher.getD k '\x00').toUpper = (cipher.getD j '\x00').toUpper ↔
        (crib.getD k '\x00').toUpper = (crib.getD j '\x00').toUpper) := by
  simp only [isSimpleAt, Bool.and_eq_true, Bool.not_eq_true', Bool.and_eq_false_iff,
    Bool.not_eq_false', beq_iff_eq, beq_eq_false_iff_ne]
  tauto

/-- The loops of `isSimpleSub` compare every two letters. -/
theorem all_isSimpleAt_iff {cipher crib : List Char} (hlength : cipher.length = crib.length)
    (x y : List Char) :
    ((List.range cipher.length).all fun k => (List.range' k (cipher.length - k)).all fun j =>
      k == j || isSimpleAt (cipher ++ x) (crib ++ y) k j) = true ↔ IsOneToOne cipher crib := by
  have hsimple (k j : Nat) (hk : k < cipher.length) (hj : j < cipher.length) :
      isSimpleAt (cipher ++ x) (crib ++ y) k j = true ↔
        (cipher[k].toUpper = cipher[j].toUpper ↔
          crib[k].toUpper = crib[j].toUpper) := by
    have hget (l z : List Char) (i : Nat) (hi : i < l.length) :
        (l ++ z).getD i '\x00' = l[i] := by
      rw [List.getD_append _ _ _ _ hi, List.getD_eq_getElem _ _ hi]
    rw [isSimpleAt_iff, hget _ _ _ hk, hget _ _ _ hj, hget _ _ _ (hlength ▸ hk),
      hget _ _ _ (hlength ▸ hj)]
  simp only [List.all_eq_true, List.mem_range, List.mem_range'_1, Bool.or_eq_true, beq_iff_eq]
  constructor
  · intro h a ha b hb
    obtain ⟨k, hk, rfl⟩ := List.mem_iff_getElem.mp ha
    obtain ⟨j, hj, rfl⟩ := List.mem_iff_getElem.mp hb
    rw [List.length_zip] at hk hj
    simp only [List.getElem_zip]
    rcases Nat.lt_trichotomy k j with hlt | rfl | hlt
    · exact (hsimple k j (by omega) (by omega)).mp
        ((h k (by omega) j (by omega)).resolve_left (by omega))
    · exact iff_of_true rfl rfl
    · have hback := (hsimple j k (by omega) (by omega)).mp
        ((h j (by omega) k (by omega)).resolve_left (by omega))
      rw [eq_comm, hback, eq_comm]
  · intro h k hk j hj
    right
    have hkz : k < (cipher.zip crib).length := by rw [List.length_zip]; omega
    have hjz : j < (cipher.zip crib).length := by rw [List.length_zip]; omega
    have hpair := h _ (List.getElem_mem hkz) _ (List.getElem_mem hjz)
    simp only [List.getElem_zip] at hpair
    exact (hsimple k j hk (by omega)).mpr hpair

/-- `isSimpleSub` of a string and as many characters. -/
theorem isSimpleSub_append {cipher crib : List Char} (hnul : '\x00' ∉ cipher)
    (hlength : cipher.length = crib.length) (x y : List Char) :
    isSimpleSub (cipher ++ '\x00' :: x) (crib ++ y) = some (decide (IsOneToOne cipher crib)) := by
  have hle : cipher.length ≤ (crib ++ y).length := by
    rw [List.length_append, hlength]
    exact Nat.le_add_right _ _
  rw [isSimpleSub, strlen_append hnul]
  simp only [Option.bind_eq_bind, Option.bind_some]
  rw [if_pos hle]
  refine congrArg some (Bool.eq_iff_iff.mpr ?_)
  rw [decide_eq_true_iff]
  exact all_isSimpleAt_iff hlength _ _

theorem isSimpleSub_eq {es qs : List Entry} (hes : ∀ e ∈ es, e.Shown) (hne : es ≠ [])
    (hlength : (lettersOf es).length = (lettersOf qs).length) :
    isSimpleSub (letterArray es) (letterArray qs) =
      some (decide (IsOneToOne (lettersOf es) (lettersOf qs))) := by
  obtain ⟨x, hx⟩ := exists_letterArray hes hne
  rw [hx, letterArray]
  have hnul := nul_not_mem_of_isAlpha fun c => isAlpha_of_mem_lettersOf hes
  exact isSimpleSub_append hnul hlength _ _

/-! ## Newlines -/

namespace Entry

variable {e : Entry}

/-- An asterisk stands for a newline. -/
theorem mem_visible_star (hletters : ∀ c ∈ e.letters, c.isAlpha = true) :
    '*' ∈ e.visible ↔ '\n' ∈ e.gap ∨ e.next = some '\n' := by
  have hword : '*' ∉ e.letters := fun hmem => absurd (hletters _ hmem) (by decide)
  rw [visible, List.mem_append, List.mem_append, mem_gapCells_star]
  split
  case isTrue h => simp [h]
  case isFalse h => simp [h, hword]

/-- Behind the first cell. -/
theorem mem_visible_tail_star (hne : e.letters ≠ [])
    (hletters : ∀ c ∈ e.letters, c.isAlpha = true) :
    '*' ∈ e.visible.tail ↔ '\n' ∈ e.gap.tail ∨ e.next = some '\n' := by
  have hword : '*' ∉ e.letters := fun hmem => absurd (hletters _ hmem) (by decide)
  have hlast : '*' ∈ (if e.next = some '\n' then ['*'] else []) ↔ e.next = some '\n' := by
    split
    case isTrue h => simp [h]
    case isFalse h => simp [h]
  cases hgap : e.gap with
  | nil =>
      obtain ⟨c, letters, hc⟩ := List.exists_cons_of_ne_nil hne
      have htail : '*' ∉ letters := fun hmem => hword (hc ▸ List.mem_cons_of_mem c hmem)
      rw [visible, hgap, hc, gapCells, List.nil_append, List.cons_append, List.tail_cons,
        List.mem_append, hlast]
      simp [htail]
  | cons c gap =>
      rw [visible, hgap, gapCells, List.cons_append, List.cons_append, List.tail_cons,
        List.mem_append, List.mem_append, mem_gapCells_star, hlast]
      simp [hword]

/-- A cell of the row that `containsNewline` looks at. -/
theorem getD_row_star (h : e.visible.length ≤ 80) (j : Nat) :
    (row e.cells).getD j '\x00' = '*' ↔ e.visible[j]? = some '*' := by
  rw [row_cells h, List.getD_eq_getElem?_getD, List.getElem?_append]
  split
  case isTrue hj => simp [List.getElem?_eq_getElem hj]
  case isFalse hj =>
    rw [List.getElem?_eq_none (Nat.le_of_not_lt hj), List.getElem?_replicate]
    split <;> simp

end Entry

/-- An asterisk in any cell but the first. -/
theorem interrupted_iff {es : List Entry} (hes : ∀ e ∈ es, e.Shown) :
    Interrupted es ↔
      ∃ k e j, es[k]? = some e ∧ e.visible[j]? = some '*' ∧ ¬ (k = 0 ∧ j = 0) := by
  cases es with
  | nil => simp [Interrupted]
  | cons e es =>
      rw [List.forall_mem_cons] at hes
      rw [Interrupted, ← Entry.mem_visible_tail_star hes.1.nonempty hes.1.isAlpha]
      constructor
      case mp =>
        intro h
        rcases h with hmem | ⟨e', he', hstar⟩
        · obtain ⟨j, hj⟩ := List.mem_iff_getElem?.mp hmem
          rw [List.getElem?_tail] at hj
          exact ⟨0, e, j + 1, rfl, hj, by simp⟩
        · rw [← Entry.mem_visible_star (hes.2 e' he').isAlpha] at hstar
          obtain ⟨k, hk⟩ := List.mem_iff_getElem?.mp he'
          obtain ⟨j, hj⟩ := List.mem_iff_getElem?.mp hstar
          exact ⟨k + 1, e', j, hk, hj, by simp⟩
      case mpr =>
        intro ⟨k, e', j, hk, hj, hne⟩
        cases k with
        | zero =>
            obtain rfl : e = e' := by simpa using hk
            cases j with
            | zero => exact absurd ⟨rfl, rfl⟩ hne
            | succ j =>
                left
                rw [List.mem_iff_getElem?]
                exact ⟨j, by rw [List.getElem?_tail]; exact hj⟩
        | succ k =>
            have he' : e' ∈ es := List.mem_of_getElem? hk
            right
            refine ⟨e', he', ?_⟩
            rw [← Entry.mem_visible_star (hes.2 e' he').isAlpha]
            exact List.mem_of_getElem? hj

/-- `containsNewline` on consecutive words. The last column is out of reach, since a row ends with
a NUL. -/
theorem containsNewline_eq {es : List Entry} (hes : ∀ e ∈ es, e.Shown) {s m : Nat}
    (hle : s + m ≤ es.length) :
    ∃ b, containsNewline (rows es) s m = some b ∧
      (b = true ↔ Interrupted ((es.drop s).take m)) := by
  have hlength : (rows es).length = es.length := List.length_map _
  refine ⟨_, by rw [containsNewline, hlength, if_pos hle], ?_⟩
  have hes' : ∀ e ∈ (es.drop s).take m, e.Shown := fun e he =>
    hes e (List.mem_of_mem_drop (List.mem_of_mem_take he))
  have hrow (k : Nat) (e : Entry) (hk : es[k]? = some e) : (rows es).getD k [] = row e.cells := by
    simp [rows, List.getD_eq_getElem?_getD, hk]
  have hstretch (k : Nat) (e : Entry) :
      ((es.drop s).take m)[k]? = some e ↔ k < m ∧ es[s + k]? = some e := by
    rw [List.getElem?_take]
    split <;> simp [*]
  rw [interrupted_iff hes']
  simp only [List.any_eq_true, List.mem_range'_1, List.mem_range, Bool.and_eq_true, beq_iff_eq,
    Bool.not_eq_true', Bool.and_eq_false_iff, beq_eq_false_iff_ne, hstretch]
  constructor
  · intro ⟨k, ⟨hsk, hkm⟩, j, hj, ⟨hstar, hfirst⟩, hlast⟩
    obtain ⟨e, he⟩ : ∃ e, es[k]? = some e := ⟨es[k], List.getElem?_eq_getElem (by omega)⟩
    have hshown := hes e (List.mem_of_getElem? he)
    rw [hrow k e he, Entry.getD_row_star hshown.fits] at hstar
    refine ⟨k - s, e, j, ⟨by omega, ?_⟩, hstar, by omega⟩
    rwa [Nat.add_sub_cancel' hsk]
  · intro ⟨k, e, j, ⟨hkm, he⟩, hstar, hfirst⟩
    have hshown := hes e (List.mem_of_getElem? he)
    have hj : j < e.visible.length := (List.getElem?_eq_some_iff.mp hstar).1
    have hfits := hshown.fits
    refine ⟨s + k, by omega, j, by rw [nCols]; omega, ⟨?_, by omega⟩, ?_⟩
    · rw [hrow _ e he, Entry.getD_row_star hfits]
      exact hstar
    · rw [nCols] at *
      omega

/-- The tests pass exactly on words that are not interrupted and have other letters one to one. -/
theorem isMatch_eq {es qs : List Entry} (hes : ∀ e ∈ es, e.Shown) (hqs : qs ≠ [])
    {cribWordLengths : List Int} (hcrib : cribWordLengths.length = qs.length) {s : Nat}
    (hle : s + qs.length ≤ es.length)
    (hlength : (lettersOf ((es.drop s).take qs.length)).length = (lettersOf qs).length) :
    ∃ b, isMatch cribWordLengths (rows es) (letterArray qs) s = some b ∧
      (b = true ↔ ¬ Interrupted ((es.drop s).take qs.length) ∧
        IsOneToOne (lettersOf ((es.drop s).take qs.length)) (lettersOf qs)) := by
  have hes' : ∀ e ∈ (es.drop s).take qs.length, e.Shown := fun e he =>
    hes e (List.mem_of_mem_drop (List.mem_of_mem_take he))
  have hne : (es.drop s).take qs.length ≠ [] := by
    rw [← List.length_pos_iff, List.length_take, List.length_drop]
    have hpos := List.length_pos_iff.mpr hqs
    omega
  obtain ⟨newline, hnewline, hiff⟩ := containsNewline_eq hes hle
  have hsimple := isSimpleSub_eq hes' hne hlength
  rw [isMatch, hcrib, justLetters_eq hes hle, hnewline]
  simp only [Option.bind_eq_bind, Option.bind_some]
  cases newline with
  | true => exact ⟨false, rfl, by simp [← hiff]⟩
  | false =>
      refine ⟨_, by rw [if_neg Bool.false_ne_true, hsimple], ?_⟩
      rw [← hiff, decide_eq_true_iff]
      simp

/-! ## The first rows -/

section FirstRows

variable (array : List (List Char)) {s n m : Nat}

theorem wordOrder_take (memory : Nat → Int) :
    (wordOrder memory array).take m = wordOrder memory (array.take m) := by
  refine List.ext_getElem? fun k => ?_
  rw [wordOrder, wordOrder, List.getElem?_mapIdx, List.getElem?_take, List.getElem?_take,
    List.getElem?_mapIdx]
  split <;> rfl

variable (hle : s + n ≤ m)

include hle

theorem take_drop_take {α : Type*} (l : List α) :
    ((l.take m).drop s).take n = (l.drop s).take n := by
  rw [List.drop_take, List.take_take, Nat.min_eq_left (by omega)]

theorem le_length_take {α : Type*} (l : List α) :
    s + n ≤ (l.take m).length ↔ s + n ≤ l.length := by
  rw [List.length_take]
  omega

theorem justLetters_take : justLetters s (array.take m) n = justLetters s array n := by
  rw [justLetters, justLetters, take_drop_take hle]
  simp only [le_length_take hle]

theorem containsNewline_take : containsNewline (array.take m) s n = containsNewline array s n := by
  have hrow (k : Nat) (hk : k < m) : (array.take m).getD k [] = array.getD k [] := by
    rw [List.getD_eq_getElem?_getD, List.getD_eq_getElem?_getD, List.getElem?_take_of_lt hk]
  rw [containsNewline, containsNewline]
  refine if_congr (le_length_take hle array) (congrArg some (Bool.eq_iff_iff.mpr ?_)) rfl
  rw [List.any_eq_true, List.any_eq_true]
  refine exists_congr fun k => and_congr_right fun hk => ?_
  rw [List.mem_range'_1] at hk
  rw [hrow k (by omega)]

/-- The tests look at the rows of the match only. -/
theorem isMatch_take {cribWordLengths : List Int} (hn : cribWordLengths.length = n)
    (justCribLetters : List Char) :
    isMatch cribWordLengths (array.take m) justCribLetters s =
      isMatch cribWordLengths array justCribLetters s := by
  rw [isMatch, isMatch, hn, justLetters_take array hle, containsNewline_take array hle]

end FirstRows

end Coursework.Decrypt
