import Coursework.Sorts.Correctness
import Coursework.StringArrays.Searching

/-!
# The first loop of `deleteDups`

The loop looks for the first sequence of the string at hand, so it can mark elements only where a
string stands for the first time, and the mark behind that place is where it ends. `markFrom` says
what this makes of an array (`countTo_markRound`).
Vocabulary and scope: `Coursework.StringArrays.Program`.
-/

namespace Coursework.StringArrays

open Loops Roster Sorts

/-- What the loop makes of the rest of an array: the first sequence of a new string that has
several elements is marked but for its first element, unless a mark stands in front of it. -/
def markFrom (seen : List StdString) : List StdString → List StdString
  | [] => []
  | x :: l =>
      if x = deleted then x :: l
      else if x ∈ seen ∨ l.head? ≠ some x then x :: markFrom (seen ++ [x]) l
      else x :: (List.replicate (l.takeWhile (· = x)).length deleted ++ l.dropWhile (· = x))

/-- Marking does not change the length of an array. -/
theorem length_markFrom (seen l : List StdString) : (markFrom seen l).length = l.length := by
  induction l generalizing seen with
  | nil => rfl
  | cons x l ih =>
      rw [markFrom]
      split_ifs with hdeleted hpass
      · rfl
      · rw [List.length_cons, ih, List.length_cons]
      · have hspan := congrArg List.length
          (List.takeWhile_append_dropWhile (p := fun y => decide (y = x)) (l := l))
        rw [List.length_append] at hspan
        simp only [List.length_cons, List.length_append, List.length_replicate]
        omega

section Marking

variable {a front rest : List StdString} {x : StdString} {extra : Nat}

/-- All elements of a sequence but the first are marked. -/
theorem markSequence_eq (h : HasSequence a front x extra rest) :
    markSequence front.length ((front.length + extra : Nat) : Int) a =
      some (front ++ x :: (List.replicate extra deleted ++ rest)) := by
  have hstop : ((front.length + extra : Nat) : Int) - front.length + 1 = (extra + 1 : Nat) := by
    omega
  obtain ⟨r, hrun, hr⟩ := repeatTo_spec (markPlace front.length) 1 (extra + 1) a
    (fun j r => ∃ marked left, r = front ++ x :: (List.replicate marked deleted ++
      (List.replicate left x ++ rest)) ∧ j = marked + 1 ∧ marked + left = extra)
    (by omega) ⟨0, extra, h.eq, rfl, Nat.zero_add _⟩ (by
      rintro j _ - hj ⟨marked, left, rfl, rfl, hextra⟩
      obtain ⟨left, rfl⟩ : ∃ left', left = left' + 1 := ⟨left - 1, by omega⟩
      have hplace : ((front.length : Int) + (marked + 1 : Nat)).toNat =
          (front ++ x :: List.replicate marked deleted).length := by
        simp
        omega
      have hstore := store_append (front ++ x :: List.replicate marked deleted) x deleted
        (List.replicate left x ++ rest)
      rw [markPlace, hplace]
      refine ⟨_, ?_, marked + 1, left, rfl, rfl, by omega⟩
      rw [List.replicate_succ, List.replicate_succ']
      simpa using hstore)
  obtain ⟨marked, left, rfl, hj, hextra⟩ := hr
  obtain rfl : marked = extra := by omega
  obtain rfl : left = 0 := by omega
  rw [markSequence, hstop, hrun]
  rfl

/-- A round marks the first sequence of the string at hand. -/
theorem markRound_eq (h : HasSequence a front x extra rest) {k : Nat} (hk : a[k]? = some x) :
    markRound a.length k a =
      if x = deleted then some (.leave a)
      else some (.next (front ++ x :: (List.replicate extra deleted ++ rest))) := by
  rw [markRound, hk]
  simp only [Option.bind_eq_bind, Option.bind_some, detectSequence_eq h, if_true,
    markSequence_eq h]

/-- The sequences that begin in the first `k` places have one element. -/
def Passed (a : List StdString) (k : Nat) : Prop :=
  ∀ front x extra rest, HasSequence a front x extra rest → front.length < k → extra = 0

/-- What is known before the round `k`: nothing is marked yet, or the mark is at hand. -/
def MarkedTo (a : List StdString) (k : Nat) (s : List StdString) : Prop :=
  (s = a ∧ Passed a k ∧ markFrom [] a = a.take k ++ markFrom (a.take k) (a.drop k)) ∨
    (s = markFrom [] a ∧ s.length = a.length ∧ s[k]? = some deleted)

/-- At a mark the loop ends. -/
theorem markRound_deleted {k : Nat} (hk : a[k]? = some deleted) :
    markRound a.length k a = some (.leave a) := by
  obtain ⟨front, extra, rest, h⟩ := exists_sequence (List.mem_of_getElem? hk)
  rw [markRound_eq h hk, if_pos rfl]

/-- An element is not in front of its first place. -/
theorem HasSequence.length_le (h : HasSequence a front x extra rest) {k : Nat}
    (hk : a[k]? = some x) : front.length ≤ k := by
  by_contra hlt
  rw [h.eq, List.getElem?_append_left (by omega)] at hk
  exact h.not_mem (List.mem_of_getElem? hk)

/-- The elements in front of a sequence. -/
theorem HasSequence.take_eq (h : HasSequence a front x extra rest) :
    a.take front.length = front := by
  rw [h.eq, List.take_left]

/-- The elements behind the first one of a sequence. -/
theorem HasSequence.drop_eq (h : HasSequence a front x extra rest) :
    a.drop (front.length + 1) = List.replicate extra x ++ rest := by
  rw [h.eq, List.drop_append, List.drop_of_length_le (by omega), List.nil_append,
    Nat.add_sub_cancel_left, List.replicate_succ]
  rfl

/-- What follows the first element of a sequence that is not marked. -/
theorem HasSequence.extra_eq_zero (h : HasSequence a front x extra rest)
    (hhead : (a.drop (front.length + 1)).head? ≠ some x) : extra = 0 := by
  rw [h.drop_eq] at hhead
  cases extra with
  | zero => rfl
  | succ extra => exact absurd rfl hhead

/-- A new string is at the first place of its sequence. -/
theorem HasSequence.front_length_eq (h : HasSequence a front x extra rest) {k : Nat}
    (hget : a[k]? = some x) (hnew : x ∉ a.take k) : front.length = k := by
  refine Nat.le_antisymm (h.length_le hget) (Nat.le_of_not_lt fun hlt => hnew ?_)
  have hget' := h.getElem?_inside (Nat.le_refl _) (by omega)
  rw [← List.getElem?_take_of_lt hlt] at hget'
  exact List.mem_of_getElem? hget'

theorem Passed.succ {k : Nat} (h : Passed a k) {y : StdString} (hy : a[k]? = some y)
    (hpass : y ∈ a.take k ∨ (a.drop (k + 1)).head? ≠ some y) : Passed a (k + 1) := by
  intro front x extra rest hseq hlt
  rcases Nat.lt_or_eq_of_le (Nat.le_of_lt_succ hlt) with hlt | rfl
  · exact h front x extra rest hseq hlt
  · have hget := hseq.getElem?_inside (Nat.le_refl _) (by omega)
    obtain rfl : x = y := Option.some.inj (hget.symm.trans hy)
    rw [hseq.take_eq] at hpass
    exact hseq.extra_eq_zero (hpass.resolve_left hseq.not_mem)

/-- The leading copies of an element. -/
theorem span_replicate (hrest : rest.head? ≠ some x) (extra : Nat) :
    (List.replicate extra x ++ rest).takeWhile (· = x) = List.replicate extra x ∧
      (List.replicate extra x ++ rest).dropWhile (· = x) = rest := by
  have hmem : ∀ y ∈ List.replicate extra x, decide (y = x) = true := fun y hy => by
    simpa using (List.mem_replicate.1 hy).2
  rw [List.takeWhile_append_of_pos hmem, List.dropWhile_append_of_pos hmem]
  cases rest with
  | nil => simp
  | cons y rest =>
      have hne : y ≠ x := fun heq => hrest (congrArg some heq)
      simp [hne]

theorem markRound_markedTo {k : Nat} {s : List StdString} (hk : k < a.length)
    (h : MarkedTo a k s) :
    ∃ round, markRound a.length k s = some round ∧
      round.Holds (MarkedTo a (k + 1)) (· = markFrom [] a) := by
  rcases h with ⟨rfl, hpassed, hmark⟩ | ⟨rfl, hlength, hdeleted⟩
  swap
  · exact ⟨.leave _, hlength ▸ markRound_deleted hdeleted, rfl⟩
  have hget : s[k]? = some s[k] := List.getElem?_eq_getElem hk
  have hdrop : s.drop k = s[k] :: s.drop (k + 1) := List.drop_eq_getElem_cons hk
  have htake : s.take (k + 1) = s.take k ++ [s[k]] := List.take_succ_eq_append_getElem hk
  rw [hdrop, markFrom] at hmark
  by_cases hdeleted : s[k] = deleted
  · rw [if_pos hdeleted, ← hdrop, List.take_append_drop] at hmark
    exact ⟨_, markRound_deleted (hget.trans (congrArg some hdeleted)), hmark.symm⟩
  rw [if_neg hdeleted] at hmark
  obtain ⟨front, extra, rest, hseq⟩ := exists_sequence (List.getElem_mem hk)
  have hround := markRound_eq hseq hget
  rw [if_neg hdeleted] at hround
  refine ⟨_, hround, ?_⟩
  have hle := hseq.length_le hget
  by_cases hpass : s[k] ∈ s.take k ∨ (s.drop (k + 1)).head? ≠ some s[k]
  · -- nothing is marked
    rw [if_pos hpass] at hmark
    have hpassed' := hpassed.succ hget hpass
    obtain rfl := hpassed' front _ extra rest hseq (Nat.lt_succ_of_le hle)
    refine .inl ⟨hseq.eq.symm, hpassed', ?_⟩
    rw [hmark, htake, List.append_assoc, List.singleton_append]
  · -- a new sequence of several elements
    rw [if_neg hpass] at hmark
    obtain ⟨hnew, hhead⟩ := not_or.1 hpass
    obtain rfl := hseq.front_length_eq hget hnew
    obtain ⟨htw, hdw⟩ := span_replicate hseq.head_ne extra
    rw [hseq.take_eq, hseq.drop_eq, htw, hdw, List.length_replicate] at hmark
    have hextra : 0 < extra := by
      refine Nat.pos_of_ne_zero fun hzero => hhead fun h => ?_
      rw [hseq.drop_eq, hzero] at h
      exact hseq.head_ne h
    refine .inr ⟨hmark.symm, ?_, ?_⟩
    · rw [hseq.length_eq]
      simp
      omega
    · rw [List.getElem?_append_right (by omega), Nat.add_sub_cancel_left, List.getElem?_cons_succ,
        List.getElem?_append_left (by simpa using hextra), List.getElem?_replicate_of_lt hextra]

/-- The first loop. -/
theorem countTo_markRound (a : List StdString) :
    ∃ round, countTo (markRound a.length) 0 a.length a = some round ∧
      round.Holds (· = markFrom [] a) (· = markFrom [] a) := by
  obtain ⟨round, hrun, hround⟩ := countTo_spec (markRound a.length) 0 a.length a (MarkedTo a)
    (· = markFrom [] a) (Nat.zero_le _)
    (.inl ⟨rfl, fun _ _ _ _ _ h => absurd h (Nat.not_lt_zero _), rfl⟩)
    fun k s _ hk h => markRound_markedTo hk h
  refine ⟨round, hrun, ?_⟩
  cases round with
  | leave r => exact hround
  | next r =>
      rcases hround with ⟨rfl, -, hmark⟩ | ⟨rfl, -, -⟩
      · rw [List.drop_length, List.take_length, markFrom, List.append_nil] at hmark
        exact hmark.symm
      · rfl

end Marking

end Coursework.StringArrays
