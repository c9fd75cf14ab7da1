import Coursework.Words.Program
import Mathlib.Algebra.Ring.Int.Defs
import Mathlib.Data.List.Dedup
import Mathlib.Data.List.Perm.Lattice

/-!
# Word listings

What a word tree is for: a listing of words in ascending order with their counts. A `Listing`
carries its order, so no word is on it twice; `Listing.add` is the one change, and
`Listing.tally_count` says which count a word has after a sequence of words was added.
Vocabulary and scope: `Entry` of `Coursework.Words.Program`.
-/

namespace Coursework.Words

open Roster

/-- The word of one entry comes before that of another. -/
def Entry.Before (e e' : Entry) : Prop :=
  e.data < e'.data

/-- A word is counted once more. -/
def Entry.increment (e : Entry) : Entry :=
  { e with count := e.count + 1 }

@[simp] theorem Entry.increment_data (e : Entry) : e.increment.data = e.data := rfl

/-- Entries in ascending order of their words. -/
structure Listing where
  entries : List Entry
  ascending : entries.Pairwise Entry.Before

/-- Count the word `v` in an ascending list, with this count if it is new. -/
def addEntry (v : StdString) (count : Int) : List Entry → List Entry
  | [] => [⟨v, count⟩]
  | e :: entries =>
      if v = e.data then e.increment :: entries
      else if v < e.data then ⟨v, count⟩ :: e :: entries
      else e :: addEntry v count entries

variable {v w : StdString} {count : Int} {e : Entry} {entries front back : List Entry}

/-- The words on the list afterwards. -/
theorem mem_words_addEntry :
    w ∈ (addEntry v count entries).map Entry.data ↔ w = v ∨ w ∈ entries.map Entry.data := by
  induction entries with
  | nil => simp [addEntry]
  | cons e entries ih =>
      unfold addEntry
      split
      · next heq => simp [heq]
      · split
        · simp
        · simp only [List.map_cons, List.mem_cons, ih]
          exact or_left_comm

/-- The list stays in order. -/
theorem ascending_addEntry (h : entries.Pairwise Entry.Before) :
    (addEntry v count entries).Pairwise Entry.Before := by
  induction entries with
  | nil => exact List.pairwise_singleton _ _
  | cons e entries ih =>
      obtain ⟨hfirst, hrest⟩ := List.pairwise_cons.1 h
      unfold addEntry
      split
      · exact List.pairwise_cons.2 ⟨hfirst, hrest⟩
      · next hne =>
        split
        · next hlt =>
          refine List.pairwise_cons.2 ⟨fun x hx => ?_, h⟩
          rcases List.mem_cons.1 hx with rfl | hx
          · exact hlt
          · exact lt_trans hlt (hfirst x hx)
        · next hnlt =>
          refine List.pairwise_cons.2 ⟨fun x hx => ?_, ih hrest⟩
          have hbefore : e.data < v := lt_of_le_of_ne (not_lt.1 hnlt) (Ne.symm hne)
          rcases mem_words_addEntry.1 (List.mem_map_of_mem hx) with heq | hmem
          · exact show e.data < x.data from heq ▸ hbefore
          · obtain ⟨y, hy, heq⟩ := List.mem_map.1 hmem
            exact show e.data < x.data from heq ▸ hfirst y hy

/-- A word that comes after some entries is counted behind them. -/
theorem addEntry_append (h : ∀ e ∈ front, e.data < v) :
    addEntry v count (front ++ back) = front ++ addEntry v count back := by
  induction front with
  | nil => rfl
  | cons e front ih =>
      obtain ⟨hfirst, hrest⟩ := List.forall_mem_cons.1 h
      rw [List.cons_append, addEntry, if_neg hfirst.ne', if_neg hfirst.not_gt, ih hrest,
        List.cons_append]

/-- A word that comes before an entry is counted ahead of it. -/
theorem addEntry_append_cons (h : v < e.data) :
    addEntry v count (front ++ e :: back) = addEntry v count front ++ e :: back := by
  induction front with
  | nil =>
      show addEntry v count (e :: back) = ⟨v, count⟩ :: e :: back
      rw [addEntry, if_neg h.ne, if_pos h]
  | cons x front ih =>
      rw [List.cons_append, addEntry, addEntry]
      split
      · rfl
      · split
        · rfl
        · rw [ih, List.cons_append]

namespace Listing

/-- The words of a listing. -/
def words (listing : Listing) : List StdString :=
  listing.entries.map Entry.data

/-- The listing without words. -/
def empty : Listing := ⟨[], List.Pairwise.nil⟩

/-- Count a word. -/
def add (listing : Listing) (v : StdString) (count : Int) : Listing :=
  ⟨addEntry v count listing.entries, ascending_addEntry listing.ascending⟩

/-- Count one word after another. -/
def addAll (listing : Listing) : List StdString → Listing
  | [] => listing
  | v :: words => (listing.add v 1).addAll words

/-- The words of a listing ascend. -/
theorem words_ascending (listing : Listing) : listing.words.Pairwise (· < ·) :=
  List.pairwise_map.2 listing.ascending

/-- No word is listed twice. -/
theorem words_nodup (listing : Listing) : listing.words.Nodup :=
  listing.words_ascending.imp ne_of_lt

/-- The listed words are those that were added. -/
theorem mem_words_addAll {listing : Listing} {added : List StdString} :
    w ∈ (listing.addAll added).words ↔ w ∈ added ∨ w ∈ listing.words := by
  induction added generalizing listing with
  | nil => simp [addAll]
  | cons v added ih =>
      rw [addAll, ih, List.mem_cons]
      have hadd : w ∈ (listing.add v 1).words ↔ w = v ∨ w ∈ listing.words := mem_words_addEntry
      rw [hadd, or_assoc]
      exact or_left_comm

end Listing

/-- The count of a word in an ascending list of entries, 0 if it is not listed. -/
def countOf (w : StdString) (entries : List Entry) : Int :=
  ((entries.find? fun e => e.data = w).map Entry.count).getD 0

/-- Adding a word with count 1 counts it once more, and no other word. -/
theorem countOf_addEntry (h : entries.Pairwise Entry.Before) :
    countOf w (addEntry v 1 entries) = countOf w entries + if w = v then 1 else 0 := by
  induction entries with
  | nil =>
      by_cases hwv : w = v
      · simp [addEntry, countOf, hwv]
      · simp [addEntry, countOf, hwv, Ne.symm hwv]
  | cons e entries ih =>
      obtain ⟨hfirst, hrest⟩ := List.pairwise_cons.1 h
      unfold addEntry
      by_cases hve : v = e.data
      -- the entry is incremented
      · rw [if_pos hve]
        by_cases hwe : e.data = w
        · simp [countOf, hwe, hve, Entry.increment]
        · simp [countOf, hwe, hve, Ne.symm hwe]
      · rw [if_neg hve]
        by_cases hlt : v < e.data
        -- the word gets an entry in front of this one
        · rw [if_pos hlt]
          by_cases hwv : w = v
          · -- a new word is not among the entries, all of which come after it
            have hnew : ∀ x ∈ e :: entries, x.data ≠ w := by
              intro x hx heq
              rw [hwv] at heq
              rcases List.mem_cons.1 hx with rfl | hx
              · exact hlt.ne heq.symm
              · exact (hlt.trans (hfirst x hx)).ne heq.symm
            have hnone : (e :: entries).find? (fun e => e.data = w) = none := by
              simpa [List.find?_eq_none] using hnew
            simp only [countOf, hnone]
            simp [hwv]
          · simp [countOf, hwv, Ne.symm hwv]
        · rw [if_neg hlt]
          by_cases hwe : e.data = w
          · have hwv : w ≠ v := fun heq => hve (heq ▸ hwe.symm)
            simp [countOf, hwe, hwv]
          · have hrest' := ih hrest
            simp only [countOf] at hrest' ⊢
            simpa [hwe] using hrest'

/-- Adding a word with count 1 adds one to the sum of the counts. -/
theorem sum_addEntry :
    ((addEntry v 1 entries).map Entry.count).sum = (entries.map Entry.count).sum + 1 := by
  induction entries with
  | nil => rfl
  | cons e entries ih =>
      unfold addEntry
      split
      · simp only [List.map_cons, List.sum_cons, Entry.increment]
        omega
      · split
        · simp only [List.map_cons, List.sum_cons]
          omega
        · simp only [List.map_cons, List.sum_cons, ih]
          omega

namespace Listing

/-- After a sequence of words each has been counted as often as it occurs in the sequence. -/
theorem countOf_addAll (listing : Listing) (added : List StdString) :
    countOf w (listing.addAll added).entries = countOf w listing.entries + added.count w := by
  induction added generalizing listing with
  | nil => simp [addAll]
  | cons v added ih =>
      rw [addAll, ih, add, countOf_addEntry listing.ascending, List.count_cons]
      by_cases hwv : w = v
      · subst hwv
        simp
        omega
      · simp [hwv, Ne.symm hwv]

/-- An entry holds the count of its word. -/
theorem countOf_data {listing : Listing} (h : e ∈ listing.entries) :
    countOf e.data listing.entries = e.count := by
  obtain ⟨entries, hascending⟩ := listing
  simp only at h
  induction entries with
  | nil => exact absurd h List.not_mem_nil
  | cons x entries ih =>
      obtain ⟨hfirst, hrest⟩ := List.pairwise_cons.1 hascending
      rcases List.mem_cons.1 h with rfl | hmem
      · simp [countOf]
      · have hne : x.data ≠ e.data := ne_of_lt (hfirst e hmem)
        have hih := ih hrest hmem
        simp only [countOf] at hih ⊢
        simpa [hne] using hih

/-- The listing of a sequence of words: its distinct words in ascending order, each with the number
of its occurrences. -/
theorem entries_addAll (added : List StdString) :
    (empty.addAll added).entries =
      (empty.addAll added).words.map fun w => ⟨w, added.count w⟩ := by
  rw [words, List.map_map]
  conv_lhs => rw [← List.map_id (empty.addAll added).entries]
  refine List.map_congr_left fun e he => ?_
  have hcount := (countOf_data he).symm
  rw [countOf_addAll] at hcount
  have hzero : countOf e.data empty.entries = 0 := rfl
  rw [hzero, Int.zero_add] at hcount
  show e = ⟨e.data, added.count e.data⟩
  rw [← hcount]

/-- The counts of all words add up to the number of words that were added. -/
theorem sum_addAll (added : List StdString) :
    ((empty.addAll added).entries.map Entry.count).sum = added.length := by
  have hsum : ∀ listing : Listing, ((listing.addAll added).entries.map Entry.count).sum =
      (listing.entries.map Entry.count).sum + added.length := by
    induction added with
    | nil =>
        intro listing
        simp [addAll]
    | cons v added ih =>
        intro listing
        rw [addAll, ih, add, sum_addEntry, List.length_cons]
        omega
  rw [hsum]
  exact Int.zero_add _

/-- The number of entries is the number of distinct words. -/
theorem length_addAll (added : List StdString) :
    (empty.addAll added).entries.length = added.dedup.length := by
  have hperm : (empty.addAll added).words.Perm added.dedup := by
    refine (List.perm_ext_iff_of_nodup (words_nodup _) (List.nodup_dedup _)).2 fun w => ?_
    rw [mem_words_addAll, List.mem_dedup]
    exact or_iff_left List.not_mem_nil
  rw [← hperm.length_eq, words, List.length_map]

end Listing

end Coursework.Words
