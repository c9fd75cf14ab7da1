import Coursework.Text.Runs
import Mathlib.Data.List.TakeWhile

/-!
# Loading the dictionary

`loadWords` of `anagrams.cpp`. A stream is the characters that are still to be read and its flag
`eof`, and the array `dict` is the list of its slots from the pointer on; a write behind the last
slot is `none`. The loop tests the flag before the extraction that sets it, so it loads the words of
the stream and, unless the stream ends with a word, an empty string, and it tests the size so late
that one string more than there are slots is written. `loadWords_right_iff` says when
what is loaded is right.
-/

namespace Coursework.Anagrams

open Runs

/-- `MAXDICTWORDS`. -/
def maxDictWords : Nat := 30000

/-- `isspace` in the locale of the program. -/
def isspace (c : Char) : Bool :=
  c = ' ' || (9 ≤ c.toNat && c.toNat ≤ 13)

/-- An input stream. -/
structure Istream where
  rest : List Char
  eof : Bool
  deriving DecidableEq

/-- `dictfile >> loadedWord`: the string, which is empty before, and the stream afterwards. -/
def Istream.extract (dictfile : Istream) : List Char × Istream :=
  -- a stream at its end fails before anything is read
  if dictfile.eof then ([], dictfile)
  else
    let rest := dictfile.rest.dropWhile isspace
    let behind := rest.dropWhile (!isspace ·)
    -- the end of the stream ends the string or the whitespace in front of it
    (rest.takeWhile (!isspace ·), ⟨behind, behind.isEmpty⟩)

/-- `loadLoop`: the slots from the pointer on, and `dictSize`. -/
def loadLoop (dictfile : Istream) : List (List Char) → Int → Option (List (List Char) × Int)
  | dict, dictSize =>
    if maxDictWords < dictSize then some (dict, dictSize)
    else if dictfile.eof then some (dict, dictSize)
    else match dict with
      | [] => none
      | _ :: dict => do
          let (loadedWord, dictfile) := dictfile.extract
          let (dict, dictSize) ← loadLoop dictfile dict (dictSize + 1)
          some (loadedWord :: dict, dictSize)

/-- `loadWords`: the returned number and the slots of `dict`. -/
def loadWords (dictfile : Istream) (dict : List (List Char)) : Option (Int × List (List Char)) := do
  let (dict, dictSize) ← loadLoop dictfile dict 0
  some (dictSize, dict)

/-- The words of a text, between which there is whitespace. -/
def words (content : List Char) : List (List Char) :=
  (split (!isspace ·) content).2.map Run.letters

/-- The text ends with a word. -/
def EndsWithWord (content : List Char) : Prop :=
  ∃ c ∈ content.getLast?, isspace c = false

instance (content : List Char) : Decidable (EndsWithWord content) :=
  inferInstanceAs (Decidable (∃ c ∈ content.getLast?, isspace c = false))

/-- The strings that the loop extracts from a stream with these characters. -/
def loaded (content : List Char) : List (List Char) :=
  words content ++ if EndsWithWord content then [] else [[]]

/-! ## The text of a stream -/

theorem words_of_proper {lead : List Char} {runs : List (Run Char)}
    (hlead : ∀ c ∈ lead, (!isspace c) = false) (hruns : Proper (!isspace ·) runs) :
    words (lead ++ text runs) = runs.map Run.letters := by
  rw [words, split_of_proper hlead hruns]

/-- What is in front of the end of a text does not matter. -/
theorem endsWithWord_append (front : List Char) {content : List Char} (h : content ≠ []) :
    EndsWithWord (front ++ content) ↔ EndsWithWord content := by
  unfold EndsWithWord
  rw [List.getLast?_append_of_ne_nil front h]

theorem not_endsWithWord {lead : List Char} (h : ∀ c ∈ lead, (!isspace c) = false) :
    ¬ EndsWithWord lead := by
  intro hend
  obtain ⟨c, hc, hspace⟩ := hend
  have hword := h c (List.mem_of_getLast? hc)
  simp [hspace] at hword

theorem endsWithWord_letters {letters : List Char} (hne : letters ≠ [])
    (h : ∀ c ∈ letters, (!isspace c) = true) : EndsWithWord letters := by
  refine ⟨letters.getLast hne, List.getLast?_eq_some_getLast hne, ?_⟩
  simpa using h _ (List.getLast_mem hne)

theorem loaded_others {lead : List Char} (h : ∀ c ∈ lead, (!isspace c) = false) :
    loaded lead = [[]] := by
  have hwords : words (lead ++ text []) = [] := words_of_proper h trivial
  rw [text_nil, List.append_nil] at hwords
  rw [loaded, hwords, if_neg (not_endsWithWord h)]
  rfl

/-- The first word of a stream, and what is loaded from the rest of it. -/
theorem loaded_cons {lead : List Char} {r : Run Char} {runs : List (Run Char)}
    (hlead : ∀ c ∈ lead, (!isspace c) = false) (hruns : Proper (!isspace ·) (r :: runs)) :
    loaded (lead ++ text (r :: runs)) =
      r.letters :: if r.after ++ text runs = [] then [] else loaded (r.after ++ text runs) := by
  obtain ⟨hne, hletters, hafter, hnext, hrest⟩ := id hruns
  rw [loaded, words_of_proper hlead hruns, text_cons, List.append_assoc, ← List.append_assoc lead]
  by_cases hnil : r.after ++ text runs = []
  · -- the stream ends with the word
    have hempty : runs = [] := by
      by_contra hne'
      exact hnext hne' (List.append_eq_nil_iff.mp hnil).1
    have hend : EndsWithWord (lead ++ r.letters) :=
      (endsWithWord_append lead hne).mpr (endsWithWord_letters hne hletters)
    rw [if_pos hnil, hnil, List.append_nil, if_pos hend, hempty]
    rfl
  · rw [if_neg hnil, loaded, words_of_proper hafter hrest]
    simp only [endsWithWord_append _ hnil, List.map_cons, List.cons_append]

/-! ## The loop -/

theorem extract_others {lead : List Char} (h : ∀ c ∈ lead, (!isspace c) = false) :
    Istream.extract ⟨lead, false⟩ = ([], ⟨[], true⟩) := by
  have hskip : lead.dropWhile isspace = [] := by
    rw [List.dropWhile_eq_nil_iff]
    intro c hc
    simpa using h c hc
  simp [Istream.extract, hskip]

/-- A string is extracted up to the whitespace behind it. -/
theorem extract_cons {lead : List Char} {r : Run Char} {runs : List (Run Char)}
    (hlead : ∀ c ∈ lead, (!isspace c) = false) (hruns : Proper (!isspace ·) (r :: runs)) :
    Istream.extract ⟨lead ++ text (r :: runs), false⟩ =
      (r.letters, ⟨r.after ++ text runs, (r.after ++ text runs).isEmpty⟩) := by
  obtain ⟨hne, hletters, -⟩ := id hruns
  have hskip : (lead ++ text (r :: runs)).dropWhile isspace =
      r.letters ++ (r.after ++ text runs) := by
    rw [List.dropWhile_append_of_pos fun c hc => by simpa using hlead c hc, text_cons,
      List.append_assoc]
    cases hword : r.letters with
    | nil => exact absurd hword hne
    | cons c letters =>
        have hc := hletters c (hword ▸ List.mem_cons_self)
        exact List.dropWhile_cons_of_neg (by simpa using hc)
  have hbehind : ∀ c ∈ (r.after ++ text runs).head?, (!isspace c) = false :=
    head?_of_proper hruns
  have htake : (r.after ++ text runs).takeWhile (!isspace ·) = [] := by
    cases hrest : r.after ++ text runs with
    | nil => rfl
    | cons c rest =>
        have hc := hbehind c (by rw [hrest]; rfl)
        exact List.takeWhile_cons_of_neg (by simpa using hc)
  have hdrop : (r.after ++ text runs).dropWhile (!isspace ·) = r.after ++ text runs := by
    cases hrest : r.after ++ text runs with
    | nil => rfl
    | cons c rest =>
        have hc := hbehind c (by rw [hrest]; rfl)
        exact List.dropWhile_cons_of_neg (by simpa using hc)
  rw [Istream.extract, if_neg Bool.false_ne_true]
  simp only [hskip]
  rw [List.takeWhile_append_of_pos hletters, List.dropWhile_append_of_pos hletters, htake, hdrop,
    List.append_nil]

/-- The slots and the size after strings have been put into the slots. -/
def store (strings dict : List (List Char)) (dictSize : Int) : Option (List (List Char) × Int) :=
  if strings.length ≤ dict.length then
    some (strings ++ dict.drop strings.length, dictSize + strings.length)
  else none

theorem store_nil (dict : List (List Char)) (dictSize : Int) :
    store [] dict dictSize = some (dict, dictSize) := by
  simp [store]

theorem store_cons (word slot : List Char) (strings dict : List (List Char)) (dictSize : Int) :
    store (word :: strings) (slot :: dict) dictSize =
      (store strings dict (dictSize + 1)).map fun x => (word :: x.1, x.2) := by
  unfold store
  simp only [List.length_cons, Nat.add_le_add_iff_right]
  split
  · have hsize : dictSize + (strings.length + 1 : Nat) = dictSize + 1 + strings.length := by omega
    rw [hsize]
    rfl
  · rfl

theorem loadLoop_eof (rest : List Char) (dict : List (List Char)) (dictSize : Int) :
    loadLoop ⟨rest, true⟩ dict dictSize = some (dict, dictSize) := by
  unfold loadLoop
  split <;> rfl

/-- Without a slot the next string is written behind the array. -/
theorem loadLoop_nil (rest : List Char) {dictSize : Int} (hsize : dictSize ≤ maxDictWords) :
    loadLoop ⟨rest, false⟩ [] dictSize = none := by
  rw [loadLoop, if_neg (by omega), if_neg Bool.false_ne_true]

/-- A slot takes the next string. -/
theorem loadLoop_cons (rest slot : List Char) (dict : List (List Char)) {dictSize : Int}
    (hsize : dictSize ≤ maxDictWords) :
    loadLoop ⟨rest, false⟩ (slot :: dict) dictSize =
      (loadLoop (Istream.extract ⟨rest, false⟩).2 dict (dictSize + 1)).map fun x =>
        ((Istream.extract ⟨rest, false⟩).1 :: x.1, x.2) := by
  rw [loadLoop, if_neg (by omega), if_neg Bool.false_ne_true]
  show (loadLoop (Istream.extract ⟨rest, false⟩).2 dict (dictSize + 1)).bind _ = _
  cases loadLoop (Istream.extract ⟨rest, false⟩).2 dict (dictSize + 1) <;> rfl

/-- As long as there are slots, the loop fills them with the strings of the stream. -/
theorem loadLoop_eq {lead : List Char} {runs : List (Run Char)}
    (hlead : ∀ c ∈ lead, (!isspace c) = false) (hruns : Proper (!isspace ·) runs)
    {dict : List (List Char)} {dictSize : Int} (hsize : dictSize + dict.length = maxDictWords) :
    loadLoop ⟨lead ++ text runs, false⟩ dict dictSize =
      store (loaded (lead ++ text runs)) dict dictSize := by
  -- by induction on the words that the stream still holds
  induction runs generalizing lead dict dictSize with
  | nil =>
      rw [text_nil, List.append_nil, loaded_others hlead]
      cases dict with
      | nil => rw [loadLoop_nil _ (by omega)]; rfl
      | cons slot dict =>
          rw [loadLoop_cons _ _ _ (by omega), extract_others hlead, loadLoop_eof, store_cons,
            store_nil]
  | cons r runs ih =>
      obtain ⟨-, -, hafter, -, hrest⟩ := id hruns
      rw [loaded_cons hlead hruns]
      cases dict with
      | nil => rw [loadLoop_nil _ (by omega)]; rfl
      | cons slot dict =>
          rw [loadLoop_cons _ _ _ (by omega), extract_cons hlead hruns, store_cons]
          by_cases hnil : r.after ++ text runs = []
          · rw [if_pos hnil, hnil, store_nil]
            simp only [List.isEmpty_nil, loadLoop_eof]
          · have hsome : (r.after ++ text runs).isEmpty = false := by simpa using hnil
            have hsize' : dictSize + 1 + dict.length = maxDictWords := by
              rw [List.length_cons] at hsize
              omega
            rw [if_neg hnil, hsome]
            simp only [ih hafter hrest hsize']

/-- What is loaded from a stream. -/
theorem loadWords_eq (content : List Char) {dict : List (List Char)}
    (hdict : dict.length = maxDictWords) :
    loadWords ⟨content, false⟩ dict =
      (store (loaded content) dict 0).map fun x => (x.2, x.1) := by
  obtain ⟨hlead, hruns⟩ := split_proper (p := (!isspace ·)) content
  have hsize : (0 : Int) + dict.length = maxDictWords := by omega
  have hloop := loadLoop_eq hlead hruns hsize
  rw [split_text] at hloop
  rw [loadWords, hloop]
  cases store (loaded content) dict 0 <;> rfl

/-- The loop ends, writes to the array only, returns the number of words up to the size of the
array, and leaves these words in front of the array. -/
def LoadsRight (content : List Char) (dict : List (List Char)) : Prop :=
  ∃ dict' : List (List Char), loadWords ⟨content, false⟩ dict =
      some (((min maxDictWords (words content).length : Nat) : Int), dict') ∧
    dict'.take (min maxDictWords (words content).length) =
      (words content).take (min maxDictWords (words content).length)

theorem LoadsRight.endsWithWord {content : List Char} {dict : List (List Char)}
    (hdict : dict.length = maxDictWords) (h : LoadsRight content dict) : EndsWithWord content := by
  by_contra hend
  -- the empty string makes one too many
  have hlength : (loaded content).length = (words content).length + 1 := by
    rw [loaded, if_neg hend, List.length_append]
    rfl
  obtain ⟨dict', hdict', -⟩ := h
  rw [loadWords_eq content hdict, store] at hdict'
  split at hdict'
  · have hsize := congrArg Prod.fst (Option.some.inj hdict')
    simp only [hlength] at hsize
    omega
  · cases hdict'

theorem loaded_eq_words {content : List Char} (h : EndsWithWord content) :
    loaded content = words content := by
  rw [loaded, if_pos h, List.append_nil]

theorem LoadsRight.length_le {content : List Char} {dict : List (List Char)}
    (hdict : dict.length = maxDictWords) (h : LoadsRight content dict) :
    (words content).length ≤ maxDictWords := by
  have hloaded := loaded_eq_words (h.endsWithWord hdict)
  obtain ⟨dict', hdict', -⟩ := h
  rw [loadWords_eq content hdict, hloaded, store, hdict] at hdict'
  by_contra hmore
  rw [if_neg hmore] at hdict'
  cases hdict'

/-- The words are loaded if the stream ends with one of them, and there are not more of them than
slots. -/
theorem loadWords_right_iff (content : List Char) {dict : List (List Char)}
    (hdict : dict.length = maxDictWords) :
    LoadsRight content dict ↔
      EndsWithWord content ∧ (words content).length ≤ maxDictWords := by
  constructor
  · intro h
    exact ⟨h.endsWithWord hdict, h.length_le hdict⟩
  · intro h
    obtain ⟨hend, hlength⟩ := h
    refine ⟨words content ++ dict.drop (words content).length, ?_, ?_⟩
    · rw [loadWords_eq content hdict, loaded_eq_words hend, store, hdict, if_pos hlength,
        Nat.min_eq_right hlength]
      simp
    · rw [Nat.min_eq_right hlength]
      simp

theorem two_words_loaded :
    LoadsRight "the cat".toList (List.replicate maxDictWords []) :=
  (loadWords_right_iff "the cat".toList List.length_replicate).mpr
    ⟨⟨'t', rfl, rfl⟩, show 2 ≤ 30000 by decide⟩

/-- The empty stream and a word with a line end add an empty string. -/
theorem empty_string_loaded :
    ¬ LoadsRight [] (List.replicate maxDictWords []) ∧
      ¬ LoadsRight "cat\n".toList (List.replicate maxDictWords []) := by
  constructor
  · intro h
    obtain ⟨c, hc, -⟩ := h.endsWithWord List.length_replicate
    cases hc
  · intro h
    obtain ⟨c, hc, hword⟩ := h.endsWithWord List.length_replicate
    have hnewline : c = '\n' := (Option.some.inj hc).symm
    rw [hnewline] at hword
    cases hword

end Coursework.Anagrams
