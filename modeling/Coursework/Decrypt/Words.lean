import Coursework.Decrypt.Program
import Coursework.Text.Runs
import Mathlib.Data.List.Infix

/-!
# Legal matches

The words of a text are its runs of letters. `LegalMatch` says that a stretch of one message has
the words of the crib in another alphabet. `legalMatch_iff` says the same with the number of the
word where the stretch starts (`LegalAt`).
Vocabulary and scope: `Coursework.Text.Runs`.
-/

namespace Coursework.Decrypt

open Runs

/-- What is in front of the first word of a text. -/
def leading (cstring : List Char) : List Char :=
  (split Char.isAlpha cstring).1

/-- The words of a text, each with what is behind it. -/
def runs (cstring : List Char) : List (Run Char) :=
  (split Char.isAlpha cstring).2

/-- The words of a text. -/
def words (cstring : List Char) : List (List Char) :=
  (runs cstring).map Run.letters

/-- Letters belong together one to one, in either case. -/
def IsOneToOne (cipher crib : List Char) : Prop :=
  ∀ x ∈ cipher.zip crib, ∀ y ∈ cipher.zip crib,
    x.1.toUpper = y.1.toUpper ↔ x.2.toUpper = y.2.toUpper

/-- The words can be the words of the crib in another alphabet. -/
def Replaces (cipherWords cribWords : List (List Char)) : Prop :=
  cipherWords.map List.length = cribWords.map List.length ∧
    IsOneToOne cipherWords.flatten cribWords.flatten

/-- Some consecutive words inside one message match the crib: the words of a stretch without a
newline that does not begin or end inside a word. -/
def LegalMatch (ciphertext crib : List Char) : Prop :=
  words crib ≠ [] ∧ ∃ front stretch back, ciphertext = front ++ (stretch ++ back) ∧
    Apart Char.isAlpha front (stretch ++ back) ∧ Apart Char.isAlpha stretch back ∧
    '\n' ∉ stretch ∧ Replaces (words stretch) (words crib)

/-- The words from number `s` on, as many as the crib has, match the crib. -/
def LegalAt (ciphertext crib : List Char) (s : Nat) : Prop :=
  s + (words crib).length ≤ (runs ciphertext).length ∧
    (∀ r ∈ (((runs ciphertext).drop s).take (words crib).length).dropLast, '\n' ∉ r.after) ∧
    Replaces ((((runs ciphertext).drop s).take (words crib).length).map Run.letters) (words crib)

theorem Replaces.length_eq {cipherWords cribWords : List (List Char)}
    (h : Replaces cipherWords cribWords) : cipherWords.length = cribWords.length := by
  simpa using congrArg List.length h.1

theorem text_runs (cstring : List Char) : leading cstring ++ text (runs cstring) = cstring :=
  split_text cstring

theorem proper_runs (cstring : List Char) : Proper Char.isAlpha (runs cstring) :=
  (split_proper cstring).2

theorem mem_of_mem_after {cstring : List Char} {r : Run Char} (hr : r ∈ runs cstring) {c : Char}
    (hc : c ∈ r.after) : c ∈ cstring := by
  rw [← text_runs cstring]
  refine List.mem_append_right _ (List.mem_flatMap.mpr ⟨r, hr, ?_⟩)
  exact List.mem_append_right _ hc

/-- The words of the first of two texts, and those of the second behind them. -/
theorem runs_append {a b : List Char} (h : Apart Char.isAlpha a b) (hne : runs a ≠ []) :
    runs (a ++ b) = extend (runs a) (leading b) ++ runs b := by
  rw [runs, split_append h, join, if_neg (show (split Char.isAlpha a).2 ≠ [] from hne)]
  rfl

theorem exists_runs_append {a b : List Char} (h : Apart Char.isAlpha a b) :
    ∃ before, runs (a ++ b) = before ++ runs b := by
  by_cases hnil : runs a = []
  · refine ⟨[], ?_⟩
    rw [runs, split_append h, join, if_pos (show (split Char.isAlpha a).2 = [] from hnil)]
    rfl
  · exact ⟨_, runs_append h hnil⟩

/-- A stretch of the text gives a number. -/
theorem legalAt_of_stretch {crib front stretch back : List Char} (hne : words crib ≠ [])
    (hfront : Apart Char.isAlpha front (stretch ++ back))
    (hback : Apart Char.isAlpha stretch back) (hnewline : '\n' ∉ stretch)
    (hreplaces : Replaces (words stretch) (words crib)) :
    ∃ s, LegalAt (front ++ (stretch ++ back)) crib s := by
  have hlength : (runs stretch).length = (words crib).length := by
    simpa [words] using hreplaces.length_eq
  have hstretch : runs stretch ≠ [] := by
    rw [← List.length_pos_iff, hlength, List.length_pos_iff]
    exact hne
  obtain ⟨before, hbefore⟩ := exists_runs_append hfront
  rw [runs_append hback hstretch] at hbefore
  have hmiddle : ((runs (front ++ (stretch ++ back))).drop before.length).take
      (words crib).length = extend (runs stretch) (leading back) := by
    rw [hbefore, List.drop_left, ← hlength, ← length_extend (runs stretch) (leading back),
      List.take_left]
  refine ⟨before.length, ?_, ?_, ?_⟩
  · rw [hbefore, List.length_append, List.length_append, length_extend, hlength]
    omega
  · rw [hmiddle, dropLast_extend]
    intro r hr hc
    exact hnewline (mem_of_mem_after (List.mem_of_mem_dropLast hr) hc)
  · rw [hmiddle, map_letters_extend]
    exact hreplaces

/-- A number gives a stretch of the text. -/
theorem legalMatch_of_legalAt {ciphertext crib : List Char} (hne : words crib ≠ []) {s : Nat}
    (h : LegalAt ciphertext crib s) : LegalMatch ciphertext crib := by
  obtain ⟨hle, hnewline, hreplaces⟩ := h
  generalize hmiddle : ((runs ciphertext).drop s).take (words crib).length = middle
    at hnewline hreplaces
  have hsplit : runs ciphertext = (runs ciphertext).take s ++
      (middle ++ (runs ciphertext).drop (s + (words crib).length)) := by
    rw [← hmiddle, ← List.drop_drop, List.take_append_drop, List.take_append_drop]
  generalize (runs ciphertext).take s = before at hsplit
  generalize (runs ciphertext).drop (s + (words crib).length) = last at hsplit
  have hproper := proper_runs ciphertext
  have hlead := (split_proper (p := Char.isAlpha) ciphertext).1
  rw [hsplit] at hproper
  rcases List.eq_nil_or_concat' middle with rfl | ⟨init, r, rfl⟩
  · exact absurd (List.length_eq_zero_iff.mp hreplaces.length_eq.symm) hne
  -- the stretch ends with the letters of the last of its words
  · rw [List.dropLast_concat] at hnewline
    have hmid : Proper Char.isAlpha (init ++ [r] ++ last) := (proper_append.mp hproper).2.1
    have hrun : Proper Char.isAlpha (r :: last) := by
      rw [List.append_assoc, List.singleton_append] at hmid
      exact (proper_append.mp hmid).2.1
    have hwords : split Char.isAlpha (text init ++ r.letters) =
        ([], init ++ [⟨r.letters, []⟩]) := by
      have hstretch : Proper Char.isAlpha (init ++ [⟨r.letters, []⟩]) := by
        have hinit := proper_append.mp (proper_append.mp hmid).1
        refine proper_append.mpr ⟨hinit.1, ⟨hrun.1, hrun.2.1, by simp, by simp, trivial⟩, ?_⟩
        exact fun _ => hinit.2.2 (List.cons_ne_nil r [])
      have h := split_of_proper (List.forall_mem_nil _) hstretch
      simpa [text_append] using h
    refine ⟨hne, leading ciphertext ++ text before, text init ++ r.letters,
      r.after ++ text last, ?_, ?_, ?_, ?_, ?_⟩
    · conv_lhs => rw [← text_runs ciphertext, hsplit]
      simp [text_append]
    · intro x hx y hy hpx
      rw [getLast?_of_proper hlead hproper (by simp) x hx] at hpx
      exact absurd hpx Bool.false_ne_true
    · exact fun x _ y hy _ => head?_of_proper hrun y hy
    · intro hmem
      rcases List.mem_append.mp hmem with hmem | hmem
      · obtain ⟨r', hr', hc⟩ := List.mem_flatMap.mp hmem
        have hr'' := (proper_append.mp (proper_append.mp hmid).1).1.of_mem hr'
        rcases List.mem_append.mp hc with hc | hc
        · exact absurd (hr''.2.1 _ hc) (by decide)
        · exact hnewline r' hr' hc
      · exact absurd (hrun.2.1 _ hmem) (by decide)
    · rw [words, runs, hwords]
      simpa using hreplaces

theorem legalMatch_iff (ciphertext crib : List Char) :
    LegalMatch ciphertext crib ↔ words crib ≠ [] ∧ ∃ s, LegalAt ciphertext crib s := by
  constructor
  case mp =>
    rintro ⟨hne, front, stretch, back, rfl, hfront, hback, hnewline, hreplaces⟩
    exact ⟨hne, legalAt_of_stretch hne hfront hback hnewline hreplaces⟩
  case mpr =>
    intro ⟨hne, s, h⟩
    exact legalMatch_of_legalAt hne h

end Coursework.Decrypt
