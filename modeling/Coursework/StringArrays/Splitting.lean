import Coursework.Sorts.Correctness
import Coursework.StringArrays.Program

/-!
# Moving elements, and splitting an array

What `moveToFront` and `moveToBack` do to an array, and what `split` makes of them. Each element
less than the splitter goes to the front, so these elements end up in front in reverse order, and
the others keep their order behind them (`split_eq`). Nothing moves the elements greater than the
splitter behind the ones equal to it, so `split` is right exactly if they were there
(`split_right_iff`).
Vocabulary and scope: `Coursework.StringArrays.Program`.
-/

namespace Coursework.StringArrays

open Loops Roster Sorts

/-! ## Moving one element -/

section Moving

variable (front back : List StdString) (x : StdString)

/-- Every element in front of `x` is copied one place to the right, by induction on these elements
from the last. -/
theorem shiftToRight_eq : ∃ z, shiftToRight front.length (front ++ x :: back) =
    some (z :: (front ++ back)) := by
  induction front using List.reverseRecOn generalizing x back with
  | nil => exact ⟨x, rfl⟩
  | append_singleton front w ih =>
      have hget : (front ++ [w] ++ x :: back)[front.length]? = some w := by simp
      have hstore : store (front ++ [w] ++ x :: back) (front.length + 1) w =
          some (front ++ w :: w :: back) := by
        have h := store_append (front ++ [w]) x w back
        simpa using h
      obtain ⟨z, hrun⟩ := ih (w :: back) w
      refine ⟨z, ?_⟩
      rw [List.length_append, List.length_singleton, shiftToRight, hget]
      simp only [Option.bind_eq_bind, Option.bind_some, hstore, hrun]
      simp

/-- `moveToFront` moves one element and keeps the others in order. -/
theorem moveToFront_eq {n : Nat} (hn : n = (front ++ x :: back).length) :
    moveToFront (front ++ x :: back) n front.length =
      some ((front.length : Int), x :: (front ++ back)) := by
  have hlength : n = front.length + (back.length + 1) := by simpa using hn
  obtain ⟨z, hrun⟩ := shiftToRight_eq front back x
  have hget : (front ++ x :: back)[front.length]? = some x := by simp
  rw [moveToFront, if_neg (by omega), if_neg (by omega), if_neg (by omega), Int.toNat_natCast, hget]
  simp only [Option.bind_eq_bind, Option.bind_some, hrun]
  rfl

/-- Some elements of `back` are copied one place to the left. -/
def ShiftedTo (k : Nat) (a : List StdString) : Prop :=
  ∃ done w rest, back = done ++ rest ∧ k = front.length + done.length ∧
    a = front ++ done ++ w :: rest

/-- `moveToBack` moves one element and keeps the others in order. -/
theorem moveToBack_eq {n : Nat} (hn : n = (front ++ x :: back).length) :
    moveToBack (front ++ x :: back) n front.length =
      some ((front.length : Int), front ++ back ++ [x]) := by
  have hlength : n = front.length + (back.length + 1) := by simpa using hn
  rw [moveToBack, if_neg (by omega), if_neg (by omega), if_neg (by omega), if_neg (by omega)]
  by_cases hone : n = 1
  · -- the only element
    obtain rfl : front = [] := List.eq_nil_of_length_eq_zero (by omega)
    obtain rfl : back = [] := List.eq_nil_of_length_eq_zero (by omega)
    rw [if_pos (by omega)]
    rfl
  have hget : (front ++ x :: back)[front.length]? = some x := by simp
  have hstop : (n : Int) - 1 = (front.length + back.length : Nat) := by omega
  obtain ⟨a, hrun, done, w, rest, hback, hk, rfl⟩ := repeatTo_spec shiftRound front.length
    (front.length + back.length) (front ++ x :: back) (ShiftedTo front back) (by omega)
    ⟨[], x, back, rfl, rfl, by simp⟩ (by
      rintro k _ hk hlt ⟨done, w, rest, rfl, rfl, rfl⟩
      rw [List.length_append] at hlt
      cases rest with
      | nil => rw [List.length_nil] at hlt; omega
      | cons v rest =>
          have hget : (front ++ done ++ w :: v :: rest)[front.length + done.length + 1]? =
              some v := by
            rw [List.getElem?_append_right (by simp)]
            simp
          have hstore := store_append (front ++ done) w v (v :: rest)
          rw [List.length_append] at hstore
          rw [shiftRound, hget]
          exact ⟨_, hstore, done ++ [v], v, rest, by simp, by simp [Nat.add_assoc], by simp⟩)
  have hrest : rest = [] := by
    have := congrArg List.length hback
    rw [List.length_append] at this
    exact List.eq_nil_of_length_eq_zero (by omega)
  subst hrest
  rw [List.append_nil] at hback
  subst hback
  have hstore := store_append (front ++ back) w x []
  rw [List.length_append] at hstore
  rw [if_neg (by omega), hstop, Int.toNat_natCast, Int.toNat_natCast, hget]
  simp only [Option.bind_eq_bind, Option.bind_some, hrun, hstore]

end Moving

/-! ## Splitting -/

section Splitting

variable (a : List StdString) (splitter : StdString)

/-- The elements less than the splitter, the last one first. -/
def below : List StdString :=
  (a.filter (· < splitter)).reverse

/-- The elements that are not less than the splitter. -/
def notBelow : List StdString :=
  a.filter (¬ · < splitter)

/-- Both parts have all the elements. -/
theorem below_append_perm : (below a splitter ++ notBelow a splitter).Perm a := by
  have hfilter := List.filter_append_perm (fun x => decide (x < splitter)) a
  refine ((List.reverse_perm _).append_right _).trans (.trans (.of_eq ?_) hfilter)
  exact congrArg _ (List.filter_congr fun x _ => decide_not)

variable {a splitter} in
/-- An element less than the splitter becomes the first one. -/
theorem below_append_lt {x : StdString} (h : x < splitter) :
    below (a ++ [x]) splitter = x :: below a splitter ∧
      notBelow (a ++ [x]) splitter = notBelow a splitter := by
  simp [below, notBelow, h]

variable {a splitter} in
/-- Another element becomes the last one. -/
theorem below_append_not_lt {x : StdString} (h : ¬ x < splitter) :
    below (a ++ [x]) splitter = below a splitter ∧
      notBelow (a ++ [x]) splitter = notBelow a splitter ++ [x] := by
  simp [below, notBelow, h, not_lt.1 h]

/-- The array and `placeIndicator` before the round `k` of `split`. -/
def splitTo (k : Nat) : Int × List StdString :=
  ((below (a.take k) splitter).length,
    below (a.take k) splitter ++ notBelow (a.take k) splitter ++ a.drop k)

theorem splitRound_eq {k : Nat} (hk : k < a.length) :
    splitRound a.length splitter k (splitTo a splitter k) = some (splitTo a splitter (k + 1)) := by
  have hlength : (below (a.take k) splitter ++ notBelow (a.take k) splitter).length = k := by
    rw [(below_append_perm (a.take k) splitter).length_eq, List.length_take]
    omega
  have hdrop : a.drop k = a[k] :: a.drop (k + 1) := List.drop_eq_getElem_cons hk
  have htake : a.take (k + 1) = a.take k ++ [a[k]] := List.take_succ_eq_append_getElem hk
  have hget : (below (a.take k) splitter ++ notBelow (a.take k) splitter ++
      a[k] :: a.drop (k + 1))[k]? = some a[k] := by
    rw [List.getElem?_append_right (by omega), hlength, Nat.sub_self]
    rfl
  rw [splitRound, splitTo, hdrop, hget]
  simp only [Option.bind_eq_bind, Option.bind_some]
  by_cases hlt : a[k] < splitter
  · obtain ⟨hbelow, hnot⟩ := below_append_lt (a := a.take k) hlt
    have hmove := moveToFront_eq (below (a.take k) splitter ++ notBelow (a.take k) splitter)
      (a.drop (k + 1)) a[k] (n := a.length) (by
        rw [List.length_append, hlength, List.length_cons, List.length_drop]
        omega)
    rw [hlength] at hmove
    rw [if_pos hlt, hmove, splitTo, htake, hbelow, hnot]
    simp
  · obtain ⟨hbelow, hnot⟩ := below_append_not_lt (a := a.take k) hlt
    rw [if_neg hlt, splitTo, htake, hbelow, hnot]
    simp

/-- `split` moves the elements less than the splitter to the front one after the other. -/
theorem split_eq :
    split a a.length splitter =
      some (((below a splitter).length : Int), below a splitter ++ notBelow a splitter) := by
  obtain ⟨s, hrun, rfl⟩ := repeatTo_spec (splitRound a.length splitter) 0 a.length (0, a)
    (fun k s => s = splitTo a splitter k) (Nat.zero_le _) (by rfl) (by
      rintro k _ - hk rfl
      exact ⟨_, splitRound_eq a splitter hk, rfl⟩)
  rw [split, if_neg (by omega), hrun, splitTo, List.take_length, List.drop_length, List.append_nil]

/-- What `split` is for: the elements less than the splitter stand before all others, the elements
greater than it behind all others, and the result is the place of the first element that is not
less than it. -/
structure SplitAt (pos : Int) (result : List StdString) : Prop where
  perm : result.Perm a
  below_first : result.Pairwise fun x y => y < splitter → x < splitter
  above_last : result.Pairwise fun x y => splitter < x → splitter < y
  pos_eq : pos = (result.findIdx fun x => ¬ x < splitter : Nat)

variable {a splitter}

theorem lt_of_mem_below {x : StdString} (h : x ∈ below a splitter) : x < splitter := by
  simpa using (List.mem_filter.1 (List.mem_reverse.1 h)).2

theorem not_lt_of_mem_notBelow {x : StdString} (h : x ∈ notBelow a splitter) :
    ¬ x < splitter := by
  simpa using (List.mem_filter.1 h).2

/-- The first element that is not less than the splitter stands behind the ones that are. -/
theorem findIdx_split :
    (below a splitter ++ notBelow a splitter).findIdx (fun x => ¬ x < splitter) =
      (below a splitter).length := by
  have hbelow : (below a splitter).findIdx (fun x => ¬ x < splitter) =
      (below a splitter).length :=
    List.findIdx_eq_length_of_false fun x hx => by simpa using lt_of_mem_below hx
  have hnot : (notBelow a splitter).findIdx (fun x => ¬ x < splitter) = 0 := by
    cases h : notBelow a splitter with
    | nil => rfl
    | cons x rest =>
        have hx := not_lt_of_mem_notBelow (h ▸ List.mem_cons_self .. : x ∈ notBelow a splitter)
        simp [List.findIdx_cons, not_lt.1 hx]
  rw [List.findIdx_append, hbelow, if_neg (Nat.lt_irrefl _), hnot, Nat.zero_add]

/-- No order is wanted between the elements greater than the splitter, and they are not moved. -/
theorem pairwise_split_iff :
    ((below a splitter ++ notBelow a splitter).Pairwise fun x y => splitter < x → splitter < y) ↔
      a.Pairwise fun x y => splitter < x → y ≠ splitter := by
  have hbelow : (below a splitter).Pairwise fun x y => splitter < x → splitter < y :=
    List.pairwise_of_forall_mem_list fun x hx y _ hlt =>
      absurd hlt (lt_of_mem_below hx).asymm
  have hcross : ∀ x ∈ below a splitter, ∀ y ∈ notBelow a splitter,
      splitter < x → splitter < y :=
    fun x hx y _ hlt => absurd hlt (lt_of_mem_below hx).asymm
  have hmiddle : (notBelow a splitter).Pairwise (fun x y => splitter < x → splitter < y) ↔
      a.Pairwise fun x y => splitter < x → y ≠ splitter := by
    rw [notBelow, List.pairwise_filter]
    refine List.Pairwise.iff fun x y => ?_
    simp only [decide_eq_true_eq, not_lt]
    refine ⟨fun h hlt heq => ?_, fun h _ hy hlt => lt_of_le_of_ne hy (h hlt).symm⟩
    subst heq
    exact lt_irrefl _ (h hlt.le le_rfl hlt)
  rw [List.pairwise_append, hmiddle]
  exact ⟨fun h => h.2.1, fun h => ⟨hbelow, h, hcross⟩⟩

/-- `split` is right exactly if no element greater than the splitter stands in front of one equal
to it. -/
theorem split_right_iff :
    (∃ pos result, split a a.length splitter = some (pos, result) ∧
      SplitAt a splitter pos result) ↔
      a.Pairwise fun x y => splitter < x → y ≠ splitter := by
  rw [split_eq, ← pairwise_split_iff]
  constructor
  · rintro ⟨pos, result, hrun, hsplit⟩
    obtain ⟨rfl, rfl⟩ := Prod.mk.inj (Option.some.inj hrun)
    exact hsplit.above_last
  · intro habove
    refine ⟨_, _, rfl, below_append_perm a splitter, ?_, habove, by rw [findIdx_split]⟩
    rw [List.pairwise_append]
    refine ⟨?_, ?_, ?_⟩
    · exact List.pairwise_of_forall_mem_list fun x hx _ _ _ => lt_of_mem_below hx
    · exact List.pairwise_of_forall_mem_list fun _ _ y hy hlt =>
        absurd hlt (not_lt_of_mem_notBelow hy)
    · exact fun x hx _ _ _ => lt_of_mem_below hx

/-- A string greater than the splitter stays in front of one that is equal to it. -/
theorem split_greater_first :
    ¬ ∃ pos result, split [chars ['c'], chars ['b']] 2 (chars ['b']) = some (pos, result) ∧
      SplitAt [chars ['c'], chars ['b']] (chars ['b']) pos result := by
  rintro ⟨pos, result, hrun, hsplit⟩
  have hresult : split [chars ['c'], chars ['b']] 2 (chars ['b']) =
      some (0, [chars ['c'], chars ['b']]) := by decide
  obtain ⟨rfl, rfl⟩ := Prod.mk.inj (Option.some.inj (hresult.symm.trans hrun))
  exact absurd ((List.pairwise_pair.1 hsplit.above_last) (by decide)) (by decide)

end Splitting

end Coursework.StringArrays
