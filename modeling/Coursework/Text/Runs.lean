import Mathlib.Data.List.Basic
import Mathlib.Tactic.Tauto

/-!
# Maximal runs

A list is split into the elements in front, and runs of elements with a property, each with the
elements behind it up to the next run. `split_append` puts the parts of two lists together where no
run is cut, and `split_of_proper` says that there is no other way to split a list.
-/

namespace Coursework.Runs

variable {α : Type}

/-- A run and the elements behind it. -/
structure Run (α : Type) where
  letters : List α
  after : List α

/-- The list that runs make up. -/
def text (runs : List (Run α)) : List α :=
  runs.flatMap fun r => r.letters ++ r.after

@[simp] theorem text_nil : text ([] : List (Run α)) = [] := rfl

@[simp] theorem text_cons (r : Run α) (runs : List (Run α)) :
    text (r :: runs) = r.letters ++ r.after ++ text runs := rfl

theorem text_append (runs runs' : List (Run α)) : text (runs ++ runs') = text runs ++ text runs' :=
  List.flatMap_append

/-- A letter in front of a split list. -/
def consLetter (a : α) : List α × List (Run α) → List α × List (Run α)
  | ([], r :: runs) => ([], ⟨a :: r.letters, r.after⟩ :: runs)
  | (lead, runs) => ([], ⟨[a], lead⟩ :: runs)

/-- What is in front of the first run, and the runs. -/
def split (p : α → Bool) : List α → List α × List (Run α)
  | [] => ([], [])
  | a :: l => if p a then consLetter a (split p l) else (a :: (split p l).1, (split p l).2)

/-- The runs are maximal: between two of them there is something else. -/
def Proper (p : α → Bool) : List (Run α) → Prop
  | [] => True
  | r :: runs => r.letters ≠ [] ∧ (∀ a ∈ r.letters, p a = true) ∧ (∀ a ∈ r.after, p a = false) ∧
      (runs ≠ [] → r.after ≠ []) ∧ Proper p runs

variable {p : α → Bool}

theorem consLetter_text (a : α) (x : List α × List (Run α)) :
    (consLetter a x).1 ++ text (consLetter a x).2 = a :: (x.1 ++ text x.2) := by
  obtain ⟨lead, runs⟩ := x
  cases lead with
  | nil => cases runs <;> simp [consLetter]
  | cons b lead => simp [consLetter]

theorem split_text (l : List α) : (split p l).1 ++ text (split p l).2 = l := by
  induction l with
  | nil => rfl
  | cons a l ih =>
      rw [split]
      split
      · rw [consLetter_text, ih]
      · exact congrArg (a :: ·) ih

theorem consLetter_proper {a : α} {x : List α × List (Run α)} (ha : p a = true)
    (hlead : ∀ b ∈ x.1, p b = false) (hruns : Proper p x.2) :
    (consLetter a x).1 = [] ∧ Proper p (consLetter a x).2 := by
  obtain ⟨lead, runs⟩ := x
  cases lead with
  | cons b lead => exact ⟨rfl, List.cons_ne_nil a [], by simpa using ha, hlead, by simp, hruns⟩
  | nil =>
      cases runs with
      | nil => exact ⟨rfl, List.cons_ne_nil a [], by simpa using ha, hlead, by simp, hruns⟩
      | cons r runs =>
          obtain ⟨-, hletters, hrest⟩ := hruns
          exact ⟨rfl, List.cons_ne_nil a _, List.forall_mem_cons.mpr ⟨ha, hletters⟩, hrest⟩

theorem split_proper (l : List α) :
    (∀ a ∈ (split p l).1, p a = false) ∧ Proper p (split p l).2 := by
  induction l with
  | nil => exact ⟨by simp [split], trivial⟩
  | cons a l ih =>
      rw [split]
      split
      case isTrue ha =>
        obtain ⟨hlead, hruns⟩ := consLetter_proper ha ih.1 ih.2
        exact ⟨by simp [hlead], hruns⟩
      case isFalse ha => exact ⟨List.forall_mem_cons.mpr ⟨by simpa using ha, ih.1⟩, ih.2⟩

theorem split_others {lead : List α} (hlead : ∀ a ∈ lead, p a = false) (l : List α) :
    split p (lead ++ l) = (lead ++ (split p l).1, (split p l).2) := by
  induction lead with
  | nil => rfl
  | cons a lead ih =>
      rw [List.forall_mem_cons] at hlead
      rw [List.cons_append, split, if_neg (by simp [hlead.1]), ih hlead.2]
      rfl

theorem split_letters {letters : List α} (hne : letters ≠ []) (hletters : ∀ a ∈ letters, p a = true)
    {l : List α} (hl : (split p l).2 ≠ [] → (split p l).1 ≠ []) :
    split p (letters ++ l) = ([], ⟨letters, (split p l).1⟩ :: (split p l).2) := by
  induction letters with
  | nil => exact absurd rfl hne
  | cons a letters ih =>
      rw [List.forall_mem_cons] at hletters
      rw [List.cons_append, split, if_pos hletters.1]
      cases letters with
      | cons b letters => rw [ih (List.cons_ne_nil b letters) hletters.2, consLetter]
      | nil =>
          -- what is behind the run does not start with a letter
          rw [List.nil_append]
          generalize split p l = x at hl
          obtain ⟨lead, runs⟩ := x
          cases lead with
          | cons b lead => rfl
          | nil =>
              cases runs with
              | nil => rfl
              | cons r runs => exact absurd rfl (hl (List.cons_ne_nil r runs))

/-- There is only one way to split a list. -/
theorem split_of_proper {lead : List α} {runs : List (Run α)} (hlead : ∀ a ∈ lead, p a = false)
    (hruns : Proper p runs) : split p (lead ++ text runs) = (lead, runs) := by
  induction runs generalizing lead with
  | nil => rw [split_others hlead]; simp [split]
  | cons r runs ih =>
      obtain ⟨hne, hletters, hafter, hnext, hruns⟩ := hruns
      have hrest := ih hafter hruns
      have hsplit := split_letters hne hletters (l := r.after ++ text runs) (by rwa [hrest])
      rw [hrest] at hsplit
      rw [split_others hlead, text_cons, List.append_assoc, hsplit, List.append_nil]

theorem Proper.of_mem {runs : List (Run α)} (h : Proper p runs) {r : Run α} (hr : r ∈ runs) :
    r.letters ≠ [] ∧ (∀ a ∈ r.letters, p a = true) ∧ (∀ a ∈ r.after, p a = false) := by
  induction runs with
  | nil => cases hr
  | cons r' runs ih =>
      obtain ⟨hne, hletters, hafter, -, hruns⟩ := h
      rcases List.mem_cons.mp hr with rfl | hr
      · exact ⟨hne, hletters, hafter⟩
      · exact ih hruns hr

/-- The letters of the runs are all that there are. -/
theorem Proper.filter_text {runs : List (Run α)} (h : Proper p runs) :
    (text runs).filter p = (runs.map Run.letters).flatten := by
  rw [text, List.filter_flatMap, List.flatMap_def]
  refine congrArg List.flatten (List.map_congr_left fun r hr => ?_)
  obtain ⟨-, hletters, hafter⟩ := h.of_mem hr
  have hnone : r.after.filter p = [] := List.filter_eq_nil_iff.mpr fun a ha => by simp [hafter a ha]
  rw [List.filter_append, List.filter_eq_self.mpr hletters, hnone, List.append_nil]

theorem proper_append {runs runs' : List (Run α)} :
    Proper p (runs ++ runs') ↔ Proper p runs ∧ Proper p runs' ∧
      (runs' ≠ [] → ∀ r ∈ runs.getLast?, r.after ≠ []) := by
  induction runs with
  | nil => simp [Proper]
  | cons r runs ih =>
      rw [List.cons_append, Proper, Proper, ih]
      cases runs with
      | nil => simp [Proper]; tauto
      | cons r' runs => simp; tauto

/-- In front of a run there is no letter. -/
theorem getLast?_of_proper {lead : List α} (hlead : ∀ a ∈ lead, p a = false)
    {runs runs' : List (Run α)} (hruns : Proper p (runs ++ runs')) (hne : runs' ≠ []) :
    ∀ x ∈ (lead ++ text runs).getLast?, p x = false := by
  rcases List.eq_nil_or_concat' runs with rfl | ⟨init, r, rfl⟩
  · intro x hx
    rw [text_nil, List.append_nil] at hx
    exact hlead x (List.mem_of_getLast? hx)
  · obtain ⟨hinit, -, hlast⟩ := proper_append.mp hruns
    have hafter : r.after ≠ [] := hlast hne r (by simp)
    obtain ⟨-, ⟨-, -, hp, -⟩, -⟩ := proper_append.mp hinit
    intro x hx
    have hx' : x = r.after.getLast hafter := by
      simpa [text_append, List.getLast?_append, List.getLast?_eq_some_getLast hafter, eq_comm]
        using hx
    rw [hx']
    exact hp _ (List.getLast_mem hafter)

/-- Behind a run there is no letter. -/
theorem head?_of_proper {r : Run α} {runs : List (Run α)} (hruns : Proper p (r :: runs)) :
    ∀ y ∈ (r.after ++ text runs).head?, p y = false := by
  obtain ⟨-, -, hp, hnext, -⟩ := hruns
  intro y hy
  cases hafter : r.after with
  | nil =>
      have hnil : runs = [] := by
        by_contra hne
        exact hnext hne hafter
      rw [hafter, hnil] at hy
      cases hy
  | cons a after =>
      rw [hafter] at hy
      cases hy
      exact hp y (hafter ▸ List.mem_cons_self)

/-- The elements behind the last run become more. -/
def extend : List (Run α) → List α → List (Run α)
  | [], _ => []
  | [r], l => [⟨r.letters, r.after ++ l⟩]
  | r :: r' :: runs, l => r :: extend (r' :: runs) l

/-- Two split lists one after the other. -/
def join (x y : List α × List (Run α)) : List α × List (Run α) :=
  if x.2 = [] then (x.1 ++ y.1, y.2) else (x.1, extend x.2 y.1 ++ y.2)

/-- No run is cut between two lists. -/
def Apart (p : α → Bool) (a b : List α) : Prop :=
  ∀ x ∈ a.getLast?, ∀ y ∈ b.head?, p x = true → p y = false

@[simp] theorem length_extend (runs : List (Run α)) (l : List α) :
    (extend runs l).length = runs.length := by
  induction runs with
  | nil => rfl
  | cons r runs ih =>
      cases runs with
      | nil => rfl
      | cons r' runs => exact congrArg (· + 1) ih

theorem extend_text {runs : List (Run α)} (hne : runs ≠ []) (l : List α) :
    text (extend runs l) = text runs ++ l := by
  induction runs with
  | nil => exact absurd rfl hne
  | cons r runs ih =>
      cases runs with
      | nil => simp [extend]
      | cons r' runs =>
          rw [extend, text_cons, ih (List.cons_ne_nil r' runs), text_cons r]
          simp only [List.append_assoc]

@[simp] theorem map_letters_extend (runs : List (Run α)) (l : List α) :
    (extend runs l).map Run.letters = runs.map Run.letters := by
  induction runs with
  | nil => rfl
  | cons r runs ih =>
      cases runs with
      | nil => rfl
      | cons r' runs => exact congrArg (r.letters :: ·) ih

/-- Only behind the last run something changes. -/
@[simp] theorem dropLast_extend (runs : List (Run α)) (l : List α) :
    (extend runs l).dropLast = runs.dropLast := by
  induction runs with
  | nil => rfl
  | cons r runs ih =>
      cases runs with
      | nil => rfl
      | cons r' runs =>
          have hne : extend (r' :: runs) l ≠ [] := by
            rw [← List.length_pos_iff, length_extend]
            exact Nat.zero_lt_succ _
          rw [extend, List.dropLast_cons_of_ne_nil hne, ih,
            List.dropLast_cons_of_ne_nil (List.cons_ne_nil r' runs)]

theorem proper_extend {runs runs' : List (Run α)} {l : List α} (hruns : Proper p runs)
    (hl : ∀ a ∈ l, p a = false) (hruns' : Proper p runs')
    (hlast : ∀ r ∈ runs.getLast?, runs' ≠ [] → r.after ++ l ≠ []) :
    Proper p (extend runs l ++ runs') := by
  induction runs with
  | nil => exact hruns'
  | cons r runs ih =>
      obtain ⟨hne, hletters, hafter, hnext, hrest⟩ := hruns
      cases runs with
      | nil =>
          refine ⟨hne, hletters, ?_, hlast r rfl, hruns'⟩
          intro a ha
          exact (List.mem_append.mp ha).elim (hafter a) (hl a)
      | cons r' runs =>
          exact ⟨hne, hletters, hafter, fun _ => hnext (List.cons_ne_nil r' runs), ih hrest hlast⟩

/-- A list with its runs ends with a letter if nothing is behind the last run. -/
theorem getLast?_of_after_nil (lead : List α) {runs : List (Run α)} (hruns : Proper p runs)
    {r : Run α} (hr : r ∈ runs.getLast?) (hafter : r.after = []) :
    ∃ x ∈ (lead ++ text runs).getLast?, p x = true := by
  induction runs generalizing lead with
  | nil => cases hr
  | cons r' runs ih =>
      obtain ⟨hne, hletters, -, -, hrest⟩ := hruns
      cases runs with
      | nil =>
          obtain rfl : r' = r := by simpa using hr
          have hlast : r'.letters.getLast hne ∈ (lead ++ text [r']).getLast? := by
            simp [hafter, List.getLast?_append, List.getLast?_eq_some_getLast hne]
          exact ⟨_, hlast, hletters _ (List.getLast_mem hne)⟩
      | cons r'' runs =>
          have hlast := ih (lead ++ (r'.letters ++ r'.after)) hrest hr
          simpa using hlast

/-- A list starts with a letter if nothing is in front of its first run. -/
theorem head?_of_lead_nil {runs : List (Run α)} (hruns : Proper p runs) (hne : runs ≠ []) :
    ∃ y ∈ (text runs).head?, p y = true := by
  cases runs with
  | nil => exact absurd rfl hne
  | cons r runs =>
      obtain ⟨hletters, hp, -⟩ := hruns
      refine ⟨r.letters.head hletters, ?_, hp _ (List.head_mem hletters)⟩
      simp [List.head?_append, List.head?_eq_some_head hletters]

/-- Lists that do not cut a run are split one after the other. -/
theorem split_append {a b : List α} (h : Apart p a b) :
    split p (a ++ b) = join (split p a) (split p b) := by
  obtain ⟨hlead, hruns⟩ := split_proper (p := p) a
  obtain ⟨hlead', hruns'⟩ := split_proper (p := p) b
  have ha := split_text (p := p) a
  have hb := split_text (p := p) b
  rw [join]
  split
  case isTrue hnil =>
    rw [hnil, text_nil, List.append_nil] at ha
    rw [ha] at hlead ⊢
    exact split_others hlead b
  case isFalse hne =>
    have htext : a ++ b =
        (split p a).1 ++ text (extend (split p a).2 (split p b).1 ++ (split p b).2) := by
      rw [text_append, extend_text hne, List.append_assoc, hb, ← List.append_assoc, ha]
    rw [htext]
    refine split_of_proper hlead (proper_extend hruns hlead' hruns' fun r hr hnext happend => ?_)
    obtain ⟨hafter, hnil⟩ := List.append_eq_nil_iff.mp happend
    obtain ⟨x, hx, hpx⟩ := getLast?_of_after_nil (split p a).1 hruns hr hafter
    obtain ⟨y, hy, hpy⟩ := head?_of_lead_nil hruns' hnext
    rw [ha] at hx
    rw [hnil, List.nil_append] at hb
    rw [hb] at hy
    rw [h x hx y hy hpx] at hpy
    exact Bool.false_ne_true hpy

end Coursework.Runs
