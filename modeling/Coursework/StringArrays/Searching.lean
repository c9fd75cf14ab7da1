import Coursework.StringArrays.Program
import Mathlib.Data.List.TakeWhile
import Mathlib.Order.Bounds.Basic

/-!
# Searching arrays of strings

`detectSequence` finds the first sequence of a string (`detectSequence_eq`), `contains` decides
whether one array is a subsequence of another (`contains_right`), and `detectMin` returns the place
of the first least string, unless this place has the number that `minIndex` begins with
(`detectMin_right_iff`).
Vocabulary and scope: `Coursework.StringArrays.Program`.
-/

namespace Coursework.StringArrays

open Loops Roster

/-! ## The first sequence of a string -/

section Sequence

variable {a front rest : List StdString} {x : StdString} {extra : Nat}

/-- An array with a sequence of `x` behind other elements, which does not go on. -/
structure HasSequence (a front : List StdString) (x : StdString) (extra : Nat)
    (rest : List StdString) : Prop where
  eq : a = front ++ (List.replicate (extra + 1) x ++ rest)
  not_mem : x ∉ front
  head_ne : rest.head? ≠ some x

namespace HasSequence

theorem length_eq (h : HasSequence a front x extra rest) :
    a.length = front.length + (extra + 1 + rest.length) := by
  rw [h.eq]
  simp

/-- The elements of the sequence. -/
theorem getElem?_inside (h : HasSequence a front x extra rest) {j : Nat}
    (hle : front.length ≤ j) (hlt : j < front.length + (extra + 1)) : a[j]? = some x := by
  rw [h.eq, List.getElem?_append_right hle, List.getElem?_append_left (by simp; omega),
    List.getElem?_replicate_of_lt (by omega)]

/-- The element behind the sequence. -/
theorem getElem?_behind (h : HasSequence a front x extra rest) :
    a[front.length + (extra + 1)]? = rest.head? := by
  rw [h.eq, List.getElem?_append_right (by omega), Nat.add_sub_cancel_left,
    List.getElem?_append_right (by simp), List.length_replicate, Nat.sub_self,
    List.head?_eq_getElem?]

end HasSequence

/-- A string of the array has a first sequence. -/
theorem exists_sequence (h : x ∈ a) : ∃ front extra rest, HasSequence a front x extra rest := by
  obtain ⟨front, back, rfl, hfront⟩ := List.eq_append_cons_of_mem h
  refine ⟨front, (back.takeWhile (· = x)).length, back.dropWhile (· = x), ?_, hfront, ?_⟩
  · have hrun : back.takeWhile (· = x) = List.replicate (back.takeWhile (· = x)).length x := by
      refine List.eq_replicate_of_mem fun y hy => ?_
      simpa using List.mem_takeWhile_imp hy
    rw [List.replicate_succ, ← hrun, List.cons_append, List.takeWhile_append_dropWhile]
  · intro hhead
    have hne := List.head?_dropWhile_not (· = x) back
    rw [hhead] at hne
    simp at hne

/-- The inner loop stops at the last element of the sequence. -/
theorem countTo_extendRound (h : HasSequence a front x extra rest) :
    ∃ round, countTo (extendRound a x) (front.length + 1) a.length (front.length : Int) =
        some round ∧
      round.Holds (· = ((front.length + extra : Nat) : Int))
        (· = ((front.length + extra : Nat) : Int)) := by
  have hlength := h.length_eq
  obtain ⟨round, hrun, hround⟩ := countTo_spec (extendRound a x) (front.length + 1) a.length
    (front.length : Int) (fun j endAt => endAt + 1 = j ∧ j ≤ front.length + (extra + 1))
    (· = ((front.length + extra : Nat) : Int)) (by omega) (by omega) (by
      rintro j endAt hj hjn ⟨hend, hle⟩
      rw [extendRound]
      by_cases hin : j < front.length + (extra + 1)
      · rw [h.getElem?_inside (by omega) hin]
        refine ⟨.next (j : Int), if_pos rfl, ?_, by omega⟩
        push_cast
        rfl
      · -- the first element behind the sequence
        obtain rfl : j = front.length + (extra + 1) := by omega
        have hget := h.getElem?_behind
        obtain ⟨y, hy⟩ : ∃ y, rest.head? = some y :=
          ⟨_, hget.symm.trans (List.getElem?_eq_getElem hjn)⟩
        have hne : y ≠ x := fun heq => h.head_ne (heq ▸ hy)
        rw [hget, hy]
        refine ⟨.leave endAt, if_neg hne, ?_⟩
        show endAt = _
        omega)
  refine ⟨round, hrun, ?_⟩
  cases round with
  | next endAt =>
      obtain ⟨hend, hle⟩ := hround
      show endAt = _
      omega
  | leave endAt => exact hround

/-- At the first element of the sequence the search is over. -/
theorem detectRound_found (h : HasSequence a front x extra rest) :
    detectRound a a.length x front.length () =
      some (.leave (true, (front.length : Int), ((front.length + extra : Nat) : Int))) := by
  have hlength := h.length_eq
  rw [detectRound, h.getElem?_inside (Nat.le_refl _) (by omega)]
  simp only [Option.bind_eq_bind, Option.bind_some, if_true]
  by_cases hlast : (front.length : Int) = a.length - 1
  · have hextra : extra = 0 := by omega
    rw [if_pos hlast, hextra, Nat.add_zero]
  · rw [if_neg hlast]
    obtain ⟨round, hrun, hround⟩ := countTo_extendRound h
    rw [hrun]
    cases round with
    | next endAt =>
        obtain rfl : endAt = _ := hround
        rfl
    | leave endAt =>
        obtain rfl : endAt = _ := hround
        rfl

/-- At another element the search goes on. -/
theorem detectRound_of_ne {k : Nat} (hk : k < a.length) (hne : a[k] ≠ x) (n : Int) :
    detectRound a n x k () = some (.next ()) := by
  rw [detectRound, List.getElem?_eq_getElem hk]
  exact if_neg hne

/-- `detectSequence` finds the first sequence of a string. -/
theorem detectSequence_eq (h : HasSequence a front x extra rest) (beginAt endAt : Int) :
    detectSequence a a.length x beginAt endAt =
      some (true, (front.length : Int), ((front.length + extra : Nat) : Int)) := by
  have hlength := h.length_eq
  obtain ⟨round, hrun, hround⟩ := countTo_spec (detectRound a a.length x) 0 a.length ()
    (fun k _ => k ≤ front.length)
    (· = (true, (front.length : Int), ((front.length + extra : Nat) : Int)))
    (Nat.zero_le _) (Nat.zero_le _) (by
      intro k _ _ hk hle
      rcases Nat.lt_or_eq_of_le hle with hlt | rfl
      · have hget : a[k] = front[k] := by simp [h.eq, hlt]
        have hne : a[k] ≠ x := fun heq =>
          h.not_mem (heq ▸ hget ▸ List.getElem_mem hlt)
        exact ⟨.next (), detectRound_of_ne hk hne _, hlt⟩
      · exact ⟨_, detectRound_found h, rfl⟩)
  rw [detectSequence, if_neg (by omega), hrun]
  cases round with
  | next => exact absurd hround (by show ¬ a.length ≤ front.length; omega)
  | leave result => exact congrArg some hround

/-- A string that is not in the array is not found. -/
theorem detectSequence_not_mem (h : x ∉ a) (beginAt endAt : Int) :
    detectSequence a a.length x beginAt endAt = some (false, beginAt, endAt) := by
  obtain ⟨round, hrun, hround⟩ := countTo_spec (detectRound a a.length x) 0 a.length ()
    (fun _ _ => True) (fun _ => False) (Nat.zero_le _) trivial (by
      intro k _ _ hk _
      have hne : a[k] ≠ x := fun heq => h (by rw [← heq]; exact List.getElem_mem hk)
      exact ⟨.next (), detectRound_of_ne hk hne _, trivial⟩)
  rw [detectSequence, if_neg (by omega), hrun]
  cases round with
  | next => rfl
  | leave result => exact hround.elim

/-- The places of a string among the first `n` elements. -/
def places (a : List StdString) (n : Int) (x : StdString) : Set Nat :=
  {k | (k : Int) < n ∧ a[k]? = some x}

/-- The places up to which there is nothing else than the string from a first place on. -/
def sequenceEnds (a : List StdString) (n : Int) (x : StdString) (first : Nat) : Set Nat :=
  {last | (last : Int) ≤ n - 1 ∧ first ≤ last ∧ ∀ j, first ≤ j → j ≤ last → a[j]? = some x}

namespace HasSequence

/-- The sequence begins at the first place of the string. -/
theorem isLeast_places (h : HasSequence a front x extra rest) :
    IsLeast (places a a.length x) front.length := by
  have hlength := h.length_eq
  refine ⟨⟨by omega, h.getElem?_inside (Nat.le_refl _) (by omega)⟩, ?_⟩
  rintro k ⟨-, hget⟩
  by_contra hlt
  rw [h.eq, List.getElem?_append_left (by omega)] at hget
  exact h.not_mem (List.mem_of_getElem? hget)

/-- It ends where the string is not repeated. -/
theorem isGreatest_sequenceEnds (h : HasSequence a front x extra rest) :
    IsGreatest (sequenceEnds a a.length x front.length) (front.length + extra) := by
  have hlength := h.length_eq
  refine ⟨⟨by omega, by omega, fun j hj hle => h.getElem?_inside hj (by omega)⟩, ?_⟩
  rintro last ⟨-, -, hall⟩
  by_contra hlt
  have hbehind := hall (front.length + (extra + 1)) (by omega) (by omega)
  rw [h.getElem?_behind] at hbehind
  exact h.head_ne hbehind

end HasSequence

/-! ### Arrays with further elements -/

section Prefix

variable {n : Int}

theorem getElem?_take_toNat {k : Nat} (hk : (k : Int) < n) : (a.take n.toNat)[k]? = a[k]? :=
  List.getElem?_take_of_lt (by omega)

/-- The elements behind the first `n` are not looked at. -/
theorem detectSequence_take (hn : 0 ≤ n) (x : StdString) (beginAt endAt : Int) :
    detectSequence (a.take n.toNat) n x beginAt endAt = detectSequence a n x beginAt endAt := by
  have hextend : ∀ (k : Nat) (endAt : Int), (k : Int) < n →
      extendRound (a.take n.toNat) x k endAt = extendRound a x k endAt := by
    intro k endAt hk
    rw [extendRound, extendRound, getElem?_take_toNat hk]
  have hdetect : ∀ (k : Nat) (s : Unit), (k : Int) < n →
      detectRound (a.take n.toNat) n x k s = detectRound a n x k s := by
    intro k s hk
    rw [detectRound, detectRound, getElem?_take_toNat hk, countTo_congr hextend (by omega)]
  rw [detectSequence, detectSequence, countTo_congr hdetect hn]

theorem places_take (x : StdString) : places (a.take n.toNat) n x = places a n x := by
  ext k
  exact and_congr_right fun hk => by rw [getElem?_take_toNat hk]

theorem sequenceEnds_take (x : StdString) (first : Nat) :
    sequenceEnds (a.take n.toNat) n x first = sequenceEnds a n x first := by
  ext last
  refine and_congr_right fun hlast => and_congr_right fun _ => forall_congr' fun j =>
    imp_congr_right fun _ => imp_congr_right fun hj => ?_
  rw [getElem?_take_toNat (by omega)]

end Prefix

/-- `detectSequence` finds the first sequence of a string among the first `n` elements, if the
string is one of them, and leaves `begin` and `end` as they were if it is not. -/
theorem detectSequence_right {n : Int} (hn : n ≤ a.length) (target : StdString)
    (beginAt endAt : Int) :
    ∃ found beginAt' endAt', detectSequence a n target beginAt endAt =
        some (found, beginAt', endAt') ∧
      (found = true ↔ 0 < n ∧ (places a n target).Nonempty) ∧
      (found = true → ∃ first last : Nat, beginAt' = first ∧ endAt' = last ∧
        IsLeast (places a n target) first ∧ IsGreatest (sequenceEnds a n target first) last) ∧
      (found = false → beginAt' = beginAt ∧ endAt' = endAt) := by
  by_cases hnegative : n < 0
  · refine ⟨false, beginAt, endAt, if_pos hnegative, ⟨nofun, fun h => by omega⟩, nofun,
      fun _ => ⟨rfl, rfl⟩⟩
  have hlength : ((a.take n.toNat).length : Int) = n := by
    rw [List.length_take]
    omega
  rw [← detectSequence_take (by omega), ← places_take]
  by_cases hmem : target ∈ a.take n.toNat
  · obtain ⟨front, extra, rest, h⟩ := exists_sequence hmem
    have hrun := detectSequence_eq h beginAt endAt
    have hfirst := h.isLeast_places
    have hlast := h.isGreatest_sequenceEnds
    rw [hlength] at hrun hfirst hlast
    rw [sequenceEnds_take] at hlast
    have hpos : 0 < n := by
      have := h.length_eq
      omega
    exact ⟨true, _, _, hrun, iff_of_true rfl ⟨hpos, _, hfirst.1⟩,
      fun _ => ⟨_, _, rfl, rfl, hfirst, hlast⟩, nofun⟩
  · have hrun := detectSequence_not_mem hmem beginAt endAt
    rw [hlength] at hrun
    refine ⟨false, _, _, hrun, ⟨nofun, ?_⟩, nofun, fun _ => ⟨rfl, rfl⟩⟩
    rintro ⟨-, k, -, hget⟩
    exact absurd (List.mem_of_getElem? hget) hmem

/-- The first two of three elements. -/
theorem detectSequence_right_two :
    ∃ found beginAt endAt,
      detectSequence [chars ['b'], chars ['a'], chars ['a']] 2 (chars ['a']) 7 7 =
        some (found, beginAt, endAt) ∧
      (found = true ↔ (0 : Int) < 2 ∧
        (places [chars ['b'], chars ['a'], chars ['a']] 2 (chars ['a'])).Nonempty) ∧
      (found = true → ∃ first last : Nat, beginAt = first ∧ endAt = last ∧
        IsLeast (places [chars ['b'], chars ['a'], chars ['a']] 2 (chars ['a'])) first ∧
        IsGreatest
          (sequenceEnds [chars ['b'], chars ['a'], chars ['a']] 2 (chars ['a']) first) last) ∧
      (found = false → beginAt = 7 ∧ endAt = 7) :=
  detectSequence_right (by decide) (chars ['a']) 7 7

end Sequence

/-! ## Subsequences -/

section Subsequence

variable {a1 a2 : List StdString}

/-- Behind the first place where its first element stands, a subsequence goes on. -/
theorem cons_sublist_append_cons {y : StdString} {between : List StdString} (h : y ∉ between)
    (l back : List StdString) : (y :: l).Sublist (between ++ y :: back) ↔ l.Sublist back := by
  induction between with
  | nil => exact List.cons_sublist_cons
  | cons x between ih =>
      obtain ⟨hne, hmem⟩ := List.ne_and_not_mem_of_not_mem_cons h
      rw [← ih hmem, List.cons_append, List.cons_sublist_cons']
      exact or_iff_left fun h => hne h.1

/-- What the inner loop finds: the first place of an element from a place on. -/
structure FirstFrom (a1 : List StdString) (y : StdString) (start j : Nat) : Prop where
  le : start ≤ j
  get : a1[j]? = some y
  not_mem : y ∉ (a1.drop start).take (j - start)

/-- The inner loop finds the first place from `start` on, if there is one. -/
theorem countTo_matchRound {k start : Nat} {y : StdString} (hy : a2[k]? = some y)
    (hle : start ≤ a1.length) :
    ∃ round, countTo (matchRound a1 a2 k) start a1.length () = some round ∧
      round.Holds (fun _ => y ∉ a1.drop start) (FirstFrom a1 y start) := by
  obtain ⟨round, hrun, hround⟩ := countTo_spec (matchRound a1 a2 k) start a1.length ()
    (fun j _ => y ∉ (a1.drop start).take (j - start)) (FirstFrom a1 y start) hle
    (by rw [Nat.sub_self, List.take_zero]; exact List.not_mem_nil) (by
      intro j _ hj hlt hnot
      rw [matchRound, hy, List.getElem?_eq_getElem hlt]
      by_cases heq : y = a1[j]
      · exact ⟨.leave j, if_pos heq, hj, by rw [heq]; exact List.getElem?_eq_getElem hlt, hnot⟩
      · refine ⟨.next (), if_neg heq, ?_⟩
        have hdrop : (a1.drop start)[j - start]? = some a1[j] := by
          rw [List.getElem?_drop, Nat.add_sub_cancel' hj, List.getElem?_eq_getElem hlt]
        rw [Nat.sub_add_comm hj, List.take_add_one, hdrop]
        show y ∉ _ ++ [a1[j]]
        simp [hnot, heq])
  refine ⟨round, hrun, ?_⟩
  cases round with
  | next => rwa [Round.Holds, List.take_of_length_le (by simp)] at hround
  | leave j => exact hround

/-- The elements of `a2` so far are matched as early as possible, or one of them has no place. -/
def MatchedTo (a1 a2 : List StdString) (k : Nat) (s : Nat × Int) : Prop :=
  s.1 ≤ a1.length ∧
    (s.2 = k ∧ (a2.Sublist a1 ↔ (a2.drop k).Sublist (a1.drop s.1)) ∨
      s.2 < k ∧ ¬ a2.Sublist a1)

/-- One round of the outer loop. -/
theorem containsRound_matchedTo {k : Nat} {s : Nat × Int} (hk : k < a2.length)
    (h : MatchedTo a1 a2 k s) :
    ∃ s', containsRound a1 a1.length a2 k s = some s' ∧ MatchedTo a1 a2 (k + 1) s' := by
  obtain ⟨hle, hmatched⟩ := h
  obtain ⟨round, hrun, hround⟩ :=
    countTo_matchRound (List.getElem?_eq_getElem hk) hle
  rw [containsRound, hrun]
  have hdrop : a2.drop k = a2[k] :: a2.drop (k + 1) := List.drop_eq_getElem_cons hk
  cases round with
  | next =>
      refine ⟨s, rfl, hle, .inr ?_⟩
      rcases hmatched with ⟨heq, hiff⟩ | ⟨hlt, hnot⟩
      · refine ⟨by omega, fun hsub => hround ?_⟩
        have hmem := (hdrop ▸ hiff.1 hsub).subset (List.mem_cons_self ..)
        exact hmem
      · exact ⟨by omega, hnot⟩
  | leave j =>
      obtain ⟨hstart, hget, hfirst⟩ := hround
      obtain ⟨hj, hgetElem⟩ := List.getElem?_eq_some_iff.1 hget
      refine ⟨(j + 1, s.2 + 1), rfl, hj, ?_⟩
      rcases hmatched with ⟨heq, hiff⟩ | ⟨hlt, hnot⟩
      · refine .inl ⟨by push_cast; omega, hiff.trans ?_⟩
        have hsplit : a1.drop s.1 = (a1.drop s.1).take (j - s.1) ++ a2[k] :: a1.drop (j + 1) := by
          rw [← hgetElem, ← List.drop_eq_getElem_cons hj]
          calc a1.drop s.1
              = (a1.drop s.1).take (j - s.1) ++ (a1.drop s.1).drop (j - s.1) :=
                (List.take_append_drop ..).symm
            _ = (a1.drop s.1).take (j - s.1) ++ a1.drop j := by
                rw [List.drop_drop, Nat.add_sub_cancel' hstart]
        rw [hdrop, hsplit, cons_sublist_append_cons hfirst]
      · exact .inr ⟨by push_cast; omega, hnot⟩

/-- `contains` decides whether one array is a subsequence of another. -/
theorem contains_right (a1 a2 : List StdString) :
    ∃ answer, contains a1 a1.length a2 a2.length = some answer ∧
      (answer = true ↔ a2.Sublist a1) := by
  rw [contains, if_neg (by omega)]
  by_cases hshort : (a1.length : Int) < a2.length
  · rw [if_pos hshort]
    refine ⟨false, rfl, nofun, fun hsub => absurd hsub.length_le (by omega)⟩
  by_cases hempty : (a2.length : Int) = 0
  · rw [if_neg hshort, if_pos hempty]
    obtain rfl : a2 = [] := List.eq_nil_of_length_eq_zero (by omega)
    exact ⟨true, rfl, fun _ => List.nil_sublist a1, fun _ => rfl⟩
  rw [if_neg hshort, if_neg hempty]
  obtain ⟨s, hrun, -, hmatched⟩ := repeatTo_spec (containsRound a1 a1.length a2) 0 a2.length
    (0, 0) (MatchedTo a1 a2) (Nat.zero_le _) ⟨Nat.zero_le _, .inl ⟨rfl, Iff.rfl⟩⟩
    (fun k s _ hk h => containsRound_matchedTo hk h)
  rw [hrun]
  rw [List.drop_length] at hmatched
  rcases hmatched with ⟨heq, hiff⟩ | ⟨hlt, hnot⟩
  · exact ⟨true, if_pos heq, fun _ => hiff.2 (List.nil_sublist _), fun _ => rfl⟩
  · exact ⟨false, if_neg (by omega), nofun, fun hsub => absurd hsub hnot⟩

end Subsequence

/-! ## The first least string -/

section Least

variable {a : List StdString}

/-- No string of the array is less than the one at the place. -/
def IsMinAt (a : List StdString) (i : Nat) : Prop :=
  ∃ x, a[i]? = some x ∧ ∀ y ∈ a, x ≤ y

/-- The first place of a least string of the first `k`. -/
structure FirstMin (a : List StdString) (k : Nat) (i : Nat) (x : StdString) : Prop where
  get : a[i]? = some x
  lt : i < k
  le : ∀ {j y}, j < k → a[j]? = some y → x ≤ y
  first : ∀ {j y}, j < i → a[j]? = some y → x < y

/-- The first round sets `minIndex` to 0. -/
theorem minRound_zero {x : StdString} (hx : a[0]? = some x) :
    minRound a 0 (0o101, x) = some (0, x) ∧ FirstMin a 1 0 x := by
  refine ⟨?_, hx, by omega, ?_, by omega⟩
  · rw [minRound, hx]
    simp
  · intro j y hj hy
    obtain rfl : j = 0 := by omega
    rw [hx] at hy
    exact (Option.some.inj hy).le

/-- The other rounds keep the first least string. -/
theorem minRound_firstMin {k i : Nat} {x : StdString} (hk : k < a.length)
    (h : FirstMin a k i x) :
    ∃ (i' : Nat) (x' : StdString), minRound a k ((i : Int), x) = some ((i' : Int), x') ∧
      FirstMin a (k + 1) i' x' := by
  have hik := h.lt
  have hget : a[k]? = some a[k] := List.getElem?_eq_getElem hk
  rw [minRound, hget]
  by_cases hlt : x > a[k]
  · refine ⟨k, a[k], ?_, hget, by omega, ?_, ?_⟩
    · simp [hlt]
    · intro j y hj hy
      rcases Nat.lt_or_eq_of_le (Nat.le_of_lt_succ hj) with hj | rfl
      · exact hlt.le.trans (h.le hj hy)
      · rw [hget] at hy
        exact (Option.some.inj hy).le
    · exact fun hj hy => lt_of_lt_of_le hlt (h.le hj hy)
  · refine ⟨i, x, ?_, h.get, by omega, ?_, h.first⟩
    · have hge : ¬ (k : Int) < i := by omega
      simp only [Option.bind_eq_bind, Option.bind_some, if_neg hlt, if_neg hge, ite_self]
    · intro j y hj hy
      rcases Nat.lt_or_eq_of_le (Nat.le_of_lt_succ hj) with hj | rfl
      · exact h.le hj hy
      · rw [hget] at hy
        exact not_lt.1 (Option.some.inj hy ▸ hlt)

/-- What `detectMin` returns: the place of the first least string, if its number is not 65. -/
theorem detectMin_eq (hne : a ≠ []) :
    ∃ (i : Nat) (x : StdString), FirstMin a a.length i x ∧
      detectMin a a.length = some (if (i : Int) = 0o101 then -1 else (i : Int)) := by
  have hlength := List.length_pos_iff.2 hne
  obtain ⟨x, hx⟩ : ∃ x, a[0]? = some x := ⟨_, List.getElem?_eq_getElem hlength⟩
  obtain ⟨hzero, hfirst⟩ := minRound_zero hx
  obtain ⟨s, hrun, hs⟩ := repeatTo_spec (minRound a) 0 a.length (0o101, x)
    (fun k s => k = 0 ∧ s = (0o101, x) ∨
      ∃ (i : Nat) (x' : StdString), s = ((i : Int), x') ∧ FirstMin a k i x')
    (Nat.zero_le _) (.inl ⟨rfl, rfl⟩) (by
      rintro k s - hk (⟨rfl, rfl⟩ | ⟨i, x', rfl, hmin⟩)
      · exact ⟨_, hzero, .inr ⟨0, x, rfl, hfirst⟩⟩
      · obtain ⟨i', x', hround, hmin'⟩ := minRound_firstMin hk hmin
        exact ⟨_, hround, .inr ⟨i', x', rfl, hmin'⟩⟩)
  rcases hs with ⟨hzero, -⟩ | ⟨i, x', rfl, hmin⟩
  · omega
  refine ⟨i, x', hmin, ?_⟩
  rw [detectMin, if_neg (by omega), hx]
  simp only [Option.bind_eq_bind, Option.bind_some, hrun]
  split <;> rfl

theorem FirstMin.isMinAt {i : Nat} {x : StdString} (h : FirstMin a a.length i x) : IsMinAt a i := by
  refine ⟨x, h.get, fun y hy => ?_⟩
  obtain ⟨j, hj, rfl⟩ := List.getElem_of_mem hy
  exact h.le hj (List.getElem?_eq_getElem hj)

/-- The first least string is at the least place of one. -/
theorem FirstMin.isLeast {i : Nat} {x : StdString} (h : FirstMin a a.length i x) :
    IsLeast {j | IsMinAt a j} i := by
  refine ⟨h.isMinAt, fun j hj => ?_⟩
  obtain ⟨y, hget, hle⟩ := hj
  by_contra hlt
  exact absurd (hle x (List.mem_of_getElem? h.get)) (not_le.2 (h.first (by omega) hget))

/-- `detectMin` returns the first place of a least string exactly if this place is not 65, the
octal number 0101. -/
theorem detectMin_right_iff (hne : a ≠ []) :
    (∃ i : Nat, detectMin a a.length = some (i : Int) ∧ IsLeast {j | IsMinAt a j} i) ↔
      ¬ IsLeast {j | IsMinAt a j} 65 := by
  obtain ⟨i, x, hmin, hrun⟩ := detectMin_eq hne
  rw [hrun]
  by_cases hi : i = 65
  · subst hi
    refine iff_of_false ?_ (not_not.2 hmin.isLeast)
    rintro ⟨j, hj, -⟩
    have hj := Option.some.inj hj
    rw [if_pos (by rfl)] at hj
    omega
  · rw [if_neg (by omega)]
    exact iff_of_true ⟨i, rfl, hmin.isLeast⟩ fun h => hi (IsLeast.unique hmin.isLeast h)

/-- The array of two strings, the second of which is less. -/
theorem detectMin_right_two :
    (∃ i : Nat, detectMin [chars ['b'], chars ['a']] 2 = some (i : Int) ∧
      IsLeast {j | IsMinAt [chars ['b'], chars ['a']] j} i) ↔
      ¬ IsLeast {j | IsMinAt [chars ['b'], chars ['a']] j} 65 :=
  detectMin_right_iff (List.cons_ne_nil _ _)

/-- 65 equal strings and a lesser one behind them. -/
def lesserLast : List StdString :=
  List.replicate 65 (chars ['b']) ++ [chars ['a']]

/-- `detectMin` takes the place of the lesser string for the mark of an array without elements. -/
theorem lesserLast_missed :
    ¬ ∃ i : Nat, detectMin lesserLast lesserLast.length = some (i : Int) ∧
      IsLeast {j | IsMinAt lesserLast j} i := by
  obtain ⟨i, x, hmin, hrun⟩ := detectMin_eq (a := lesserLast) (by simp [lesserLast])
  have hlast : lesserLast[65]? = some (chars ['a']) := by decide
  have hi : i = 65 := by
    by_contra hne
    have hlt : i < 65 := by
      have hlength : lesserLast.length = 66 := by simp [lesserLast]
      have := hmin.lt
      omega
    have hx : lesserLast[i]? = some (chars ['b']) := by
      rw [lesserLast, List.getElem?_append_left (by simpa using hlt),
        List.getElem?_replicate_of_lt hlt]
    obtain rfl := Option.some.inj (hmin.get.symm.trans hx)
    exact absurd (hmin.le (by decide) hlast) (by decide)
  rw [hrun, hi]
  rintro ⟨j, hj, -⟩
  have hj := Option.some.inj hj
  rw [if_pos (by rfl)] at hj
  omega

end Least

end Coursework.StringArrays
