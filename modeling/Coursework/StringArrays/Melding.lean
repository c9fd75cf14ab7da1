import Coursework.Sorts.Correctness
import Coursework.StringArrays.Program

/-!
# Melding two arrays

The exchange sort of `meld` brings the least element that is left to each place in turn
(`exchangeSort_sorts`). The loops that check the order of the arguments run up to one less than
their sizes, so they have no end for an array without elements. `meld_right_iff` says for which
arguments the result is right.
Vocabulary and scope: `Coursework.StringArrays.Program`.
-/

namespace Coursework.StringArrays

open Loops Numbers Roster Sorts
open scoped List

theorem getElem?_append_cons {front back : List StdString} {x : StdString} {i : Nat}
    (hi : i = front.length) : (front ++ x :: back)[i]? = some x := by
  subst hi
  simp

/-! ## The exchange sort -/

section Exchange

variable {front seen back tail l : List StdString} {m x : StdString}

/-- What a round of the inner loop reads. -/
theorem exchangeRound_eq (front seen back : List StdString) (m x : StdString) :
    exchangeRound front.length (front.length + (seen.length + 1))
        (front ++ m :: (seen ++ x :: back)) =
      if x < m then some (front ++ x :: (seen ++ m :: back))
      else some (front ++ m :: (seen ++ x :: back)) := by
  have hsplit : ∀ m x, front ++ m :: (seen ++ x :: back) = (front ++ m :: seen) ++ x :: back := by
    simp
  have hlength : ∀ m, (front ++ m :: seen).length = front.length + (seen.length + 1) := by
    simp
  have hget : (front ++ m :: (seen ++ x :: back))[front.length + (seen.length + 1)]? = some x := by
    rw [hsplit]
    exact getElem?_append_cons (hlength m).symm
  rw [exchangeRound, hget, getElem?_append_cons rfl]
  simp only [Option.bind_eq_bind, Option.bind_some]
  split
  · rw [store_append, Option.bind_some, hsplit, ← hlength x, store_append, ← hsplit]
  · rfl

/-- The place `w` is not exchanged with itself. -/
theorem exchangeRound_self (front back : List StdString) (m : StdString) :
    exchangeRound front.length front.length (front ++ m :: back) =
      some (front ++ m :: back) := by
  rw [exchangeRound, getElem?_append_cons rfl]
  exact if_neg (lt_irrefl m)

/-- The elements from the place `w` on, of which the first one is least among the first `k`. -/
structure LeastFirst (l : List StdString) (k : Nat) (m : StdString) (t : List StdString) :
    Prop where
  perm : (m :: t).Perm l
  le : ∀ y ∈ (m :: t).take k, m ≤ y

/-- One more element is compared. -/
theorem LeastFirst.of_le {seen rest : List StdString} {x : StdString}
    (hperm : (m :: (seen ++ x :: rest)).Perm l) (hseen : ∀ y ∈ seen, m ≤ y) (hx : m ≤ x) :
    LeastFirst l (seen.length + 1 + 1) m (seen ++ x :: rest) := by
  refine ⟨hperm, fun y hy => ?_⟩
  have htake : (m :: (seen ++ x :: rest)).take (seen.length + 1 + 1) = m :: (seen ++ [x]) := by
    rw [List.take_succ_cons, List.take_append, List.take_of_length_le (Nat.le_succ _)]
    simp
  rw [htake] at hy
  rcases List.mem_cons.1 hy with rfl | hy
  · exact le_rfl
  rcases List.mem_append.1 hy with hy | hy
  · exact hseen y hy
  · exact List.mem_singleton.1 hy ▸ hx

/-- A round of the inner loop. -/
theorem LeastFirst.round {k : Nat} {t : List StdString} (h : LeastFirst l k m t)
    (hk : k < l.length) (front tail : List StdString) :
    ∃ m' t', exchangeRound front.length (front.length + k) (front ++ m :: (t ++ tail)) =
        some (front ++ m' :: (t' ++ tail)) ∧ LeastFirst l (k + 1) m' t' := by
  have hlength := h.perm.length_eq
  cases k with
  | zero =>
      refine ⟨m, t, exchangeRound_self front (t ++ tail) m, h.perm, ?_⟩
      simp
  | succ k =>
      rw [List.length_cons] at hlength
      -- the element that is compared with the first one
      obtain ⟨seen, x, rest, rfl, rfl⟩ : ∃ seen x rest, t = seen ++ x :: rest ∧ seen.length = k :=
        ⟨t.take k, t[k], t.drop (k + 1), by rw [← List.drop_eq_getElem_cons, List.take_append_drop],
          by rw [List.length_take]; omega⟩
      have hseen : ∀ y ∈ seen, m ≤ y := fun y hy => h.le y (by
        rw [← List.cons_append, List.take_left' (by simp)]
        exact List.mem_cons_of_mem _ hy)
      rw [List.append_assoc, List.cons_append, exchangeRound_eq]
      by_cases hlt : x < m
      · rw [if_pos hlt]
        refine ⟨x, seen ++ m :: rest, by simp, .of_le ?_ (fun y hy => ?_) hlt.le⟩
        · calc x :: (seen ++ m :: rest)
            _ ~ x :: m :: (seen ++ rest) := List.perm_middle.cons x
            _ ~ m :: x :: (seen ++ rest) := .swap m x _
            _ ~ m :: (seen ++ x :: rest) := List.perm_middle.symm.cons m
            _ ~ l := h.perm
        · exact hlt.le.trans (hseen y hy)
      · rw [if_neg hlt]
        exact ⟨m, seen ++ x :: rest, by simp, .of_le h.perm hseen (not_lt.1 hlt)⟩

/-- The inner loop brings the least element to the first place. -/
theorem repeatTo_exchangeRound (front tail : List StdString) (m : StdString)
    (t : List StdString) (size : Nat) (hsize : size = front.length + (t.length + 1)) :
    ∃ m' t', repeatTo (exchangeRound front.length) front.length size
        (front ++ m :: (t ++ tail)) = some (front ++ m' :: (t' ++ tail)) ∧
      (m' :: t').Perm (m :: t) ∧ ∀ y ∈ t', m' ≤ y := by
  subst hsize
  obtain ⟨r, hrun, m', t', rfl, hleast⟩ := repeatTo_spec (exchangeRound front.length)
    front.length (front.length + (t.length + 1)) (front ++ m :: (t ++ tail))
    (fun j r => ∃ m' t', r = front ++ m' :: (t' ++ tail) ∧
      LeastFirst (m :: t) (j - front.length) m' t') (by omega)
    ⟨m, t, rfl, .refl _, by simp⟩ (by
      rintro j _ hj hlt ⟨m', t', rfl, hleast⟩
      obtain ⟨k, rfl⟩ := Nat.exists_eq_add_of_le hj
      rw [Nat.add_sub_cancel_left] at hleast
      obtain ⟨m'', t'', hround, hleast'⟩ :=
        hleast.round (by rw [List.length_cons]; omega) front tail
      refine ⟨_, hround, m'', t'', rfl, ?_⟩
      rwa [Nat.add_assoc, Nat.add_sub_cancel_left])
  refine ⟨m', t', hrun, hleast.perm, fun y hy => hleast.le y ?_⟩
  have hlength := hleast.perm.length_eq
  rw [List.length_cons, List.length_cons] at hlength
  rw [Nat.add_sub_cancel_left, List.take_of_length_le (by rw [List.length_cons]; omega)]
  exact List.mem_cons_of_mem _ hy

/-- The first `w` elements are in order and no element behind them is less. -/
structure SortedTo (l : List StdString) (w : Nat) (front rest : List StdString) : Prop where
  length_eq : front.length = w
  perm : (front ++ rest).Perm l
  sorted : front.Pairwise (· ≤ ·)
  le : ∀ x ∈ front, ∀ y ∈ rest, x ≤ y

/-- A round of the outer loop. -/
theorem SortedTo.round {w : Nat} {rest : List StdString} (h : SortedTo l w front rest)
    (hw : w < l.length) (tail : List StdString) :
    ∃ front' rest', repeatTo (exchangeRound w) w l.length (front ++ (rest ++ tail)) =
        some (front' ++ (rest' ++ tail)) ∧ SortedTo l (w + 1) front' rest' := by
  obtain ⟨rfl, hperm, hsorted, hle⟩ := h
  have hlength := hperm.length_eq
  rw [List.length_append] at hlength
  cases rest with
  | nil => rw [List.length_nil] at hlength; omega
  | cons m t =>
      obtain ⟨m', t', hrun, hperm', hleast⟩ :=
        repeatTo_exchangeRound front tail m t l.length (by simpa using hlength.symm)
      refine ⟨front ++ [m'], t', ?_, by simp, ?_, ?_, ?_⟩
      · rw [List.cons_append, hrun]
        simp
      · rw [List.append_assoc, List.singleton_append]
        exact (hperm'.append_left front).trans hperm
      · rw [List.pairwise_append]
        refine ⟨hsorted, List.pairwise_singleton _ _, fun x hx y hy => ?_⟩
        rw [List.mem_singleton.1 hy]
        exact hle x hx m' (hperm'.subset (List.mem_cons_self ..))
      · intro x hx y hy
        rcases List.mem_append.1 hx with hx | hx
        · exact hle x hx y (hperm'.subset (List.mem_cons_of_mem _ hy))
        · rw [List.mem_singleton.1 hx]
          exact hleast y hy

/-- The exchange sort sorts the elements at the start of an array. -/
theorem exchangeSort_sorts (l tail : List StdString) :
    ∃ sorted, exchangeSort l.length (l ++ tail) = some (sorted ++ tail) ∧
      sorted.Perm l ∧ sorted.Pairwise (· ≤ ·) := by
  obtain ⟨r, hrun, front, rest, rfl, hsorted⟩ := repeatTo_spec
    (fun w result => repeatTo (exchangeRound w) w l.length result) 0 l.length (l ++ tail)
    (fun w r => ∃ front rest, r = front ++ (rest ++ tail) ∧ SortedTo l w front rest)
    (Nat.zero_le _) ⟨[], l, rfl, rfl, .refl _, .nil, by simp⟩ (by
      rintro w _ - hw ⟨front, rest, rfl, hsorted⟩
      obtain ⟨front', rest', hround, hsorted'⟩ := hsorted.round hw tail
      exact ⟨_, hround, front', rest', rfl, hsorted'⟩)
  obtain rfl : rest = [] := by
    have hlength := hsorted.perm.length_eq
    rw [List.length_append, hsorted.length_eq] at hlength
    exact List.eq_nil_of_length_eq_zero (by omega)
  exact ⟨front, hrun, by simpa using hsorted.perm, hsorted.sorted⟩

end Exchange

/-! ## Checking and copying -/

section Loops

variable {a : List StdString}

/-- An array in nondecreasing order. -/
def InOrder (a : List StdString) : Prop :=
  a.Pairwise (· ≤ ·)

/-- The check of an array that has elements. -/
theorem countTo_orderRound (hne : a ≠ []) :
    ∃ round, countTo (orderRound a) 0 (a.length - 1) () = some round ∧
      round.Holds (fun _ => InOrder a) (fun _ => ¬ InOrder a) := by
  have hlength := List.length_pos_iff.2 hne
  have hchain : InOrder a ↔ ∀ k (hk : k + 1 < a.length), a[k] ≤ a[k + 1] :=
    List.isChain_iff_pairwise.symm.trans List.isChain_iff_getElem
  have hstop : (a.length : Int) - 1 = (a.length - 1 : Nat) := by omega
  obtain ⟨round, hrun, hround⟩ := countTo_spec (orderRound a) 0 (a.length - 1) ()
    (fun k _ => ∀ i (hi : i + 1 < a.length), i < k → a[i] ≤ a[i + 1]) (fun _ => ¬ InOrder a)
    (Nat.zero_le _) (fun _ _ hi => absurd hi (Nat.not_lt_zero _)) (by
      intro k _ _ hk hsofar
      have hk' : k + 1 < a.length := by omega
      rw [orderRound, List.getElem?_eq_getElem (Nat.lt_of_succ_lt hk'),
        List.getElem?_eq_getElem hk']
      by_cases hgt : a[k] > a[k + 1]
      · exact ⟨.leave (), if_pos hgt, fun h => absurd (hchain.1 h k hk') (not_le.2 hgt)⟩
      · refine ⟨.next (), if_neg hgt, fun i hi hik => ?_⟩
        rcases Nat.lt_or_eq_of_le (Nat.le_of_lt_succ hik) with hik | rfl
        · exact hsofar i hi hik
        · exact not_lt.1 hgt)
  refine ⟨round, hstop ▸ hrun, ?_⟩
  cases round with
  | next => exact hchain.2 fun k hk => hround k hk (by omega)
  | leave => exact hround

/-- The check of an array without elements goes past every bound. -/
theorem countTo_orderRound_nil : countTo (orderRound []) 0 (0 - 1) () = none :=
  countTo_above _ (by decide) ()

/-- An array is copied behind the elements that have their places. -/
theorem repeatTo_copyRound (front back : List StdString) (h : a.length ≤ back.length) :
    repeatTo (copyRound front.length a) 0 a.length (front ++ back) =
      some (front ++ (a ++ back.drop a.length)) := by
  obtain ⟨r, hrun, rfl⟩ := repeatTo_spec (copyRound front.length a) 0 a.length (front ++ back)
    (fun w r => r = front ++ (a.take w ++ back.drop w)) (Nat.zero_le _) rfl (by
      rintro w _ - hw rfl
      have hdrop : back.drop w = back[w] :: back.drop (w + 1) := List.drop_eq_getElem_cons _
      have htake : a.take (w + 1) = a.take w ++ [a[w]] := List.take_succ_eq_append_getElem hw
      have hplace : w + front.length = (front ++ a.take w).length := by
        rw [List.length_append, List.length_take]
        omega
      rw [copyRound, List.getElem?_eq_getElem hw, Option.bind_eq_bind, Option.bind_some, hplace,
        hdrop, ← List.append_assoc, store_append]
      exact ⟨_, rfl, by
        rw [htake, List.append_assoc, List.append_assoc, List.singleton_append]⟩)
  rw [hrun, List.take_length]

variable {a1 a2 result : List StdString} {n2 size : Int}

theorem meldLoops_nil : meldLoops [] 0 a2 n2 result size = none := by
  rw [meldLoops, countTo_orderRound_nil]
  rfl

theorem meldLoops_disorder (h : ¬ InOrder a1) :
    meldLoops a1 a1.length a2 n2 result size = some (-1, result) := by
  have hne : a1 ≠ [] := fun heq => h (heq ▸ List.Pairwise.nil)
  obtain ⟨round, hrun, hround⟩ := countTo_orderRound hne
  rw [meldLoops, hrun]
  cases round with
  | next => exact absurd hround h
  | leave => rfl

/-- The first array is in order. -/
theorem meldLoops_inOrder (hne : a1 ≠ []) (h : InOrder a1) :
    meldLoops a1 a1.length a2 n2 result size =
      (do
        match ← countTo (orderRound a2) 0 (n2 - 1) () with
        | .leave _ => some (-1, result)
        | .next _ =>
          let result ← repeatTo (copyRound 0 a1) 0 a1.length result
          let result ← repeatTo (copyRound a1.length a2) 0 n2 result
          let result ← exchangeSort size result
          some (size, result)) := by
  obtain ⟨round, hrun, hround⟩ := countTo_orderRound hne
  rw [meldLoops, hrun]
  cases round with
  | next => rfl
  | leave => exact absurd h hround

theorem meldLoops_nil_right (hne : a1 ≠ []) (h : InOrder a1) :
    meldLoops a1 a1.length [] 0 result size = none := by
  rw [meldLoops_inOrder hne h, countTo_orderRound_nil]
  rfl

theorem meldLoops_disorder_right (hne : a1 ≠ []) (h : InOrder a1) (hnot : ¬ InOrder a2) :
    meldLoops a1 a1.length a2 a2.length result size = some (-1, result) := by
  have hne2 : a2 ≠ [] := fun heq => hnot (heq ▸ List.Pairwise.nil)
  obtain ⟨round, hrun, hround⟩ := countTo_orderRound hne2
  rw [meldLoops_inOrder hne h, hrun]
  cases round with
  | next => exact absurd hround hnot
  | leave => rfl

/-- Arrays in order are copied to the start of the result and sorted there. -/
theorem meldLoops_sorts (result : List StdString) (hne1 : a1 ≠ []) (h1 : InOrder a1)
    (hne2 : a2 ≠ []) (h2 : InOrder a2)
    (hroom : a1.length + a2.length ≤ result.length) :
    ∃ sorted tail : List StdString,
      meldLoops a1 a1.length a2 a2.length result (a1 ++ a2).length =
        some (((a1 ++ a2).length : Int), sorted ++ tail) ∧
      sorted ~ a1 ++ a2 ∧ InOrder sorted := by
  obtain ⟨round, hrun, hround⟩ := countTo_orderRound hne2
  have hcopy1 := repeatTo_copyRound (a := a1) [] result (by omega)
  have hcopy2 := repeatTo_copyRound (a := a2) a1 (result.drop a1.length) (by
    rw [List.length_drop]
    omega)
  obtain ⟨sorted, hsort, hperm, horder⟩ := exchangeSort_sorts (a1 ++ a2)
    ((result.drop a1.length).drop a2.length)
  rw [List.append_assoc] at hsort
  refine ⟨sorted, (result.drop a1.length).drop a2.length, ?_, hperm, horder⟩
  rw [meldLoops_inOrder hne1 h1, hrun]
  cases round with
  | leave => exact absurd h2 hround
  | next =>
    simp only [List.nil_append, List.length_nil] at hcopy1
    simp only [Option.bind_eq_bind, Option.bind_some, hcopy1, hcopy2, hsort]

end Loops

/-! ## The result -/

/-- The arguments of a call of `meld`: the arrays have as many elements as their sizes say, and
`result` has room for `max` elements. -/
structure MeldCall where
  a1 : List StdString
  n1 : Int
  a2 : List StdString
  n2 : Int
  result : List StdString
  max : Int
  length_a1 : 0 ≤ n1 → n1 = a1.length
  length_a2 : 0 ≤ n2 → n2 = a2.length
  room : max ≤ result.length

namespace MeldCall

variable (c : MeldCall)

/-- The call. -/
def outcome : Option (Int × List StdString) :=
  meld c.a1 c.n1 c.a2 c.n2 c.result c.max

/-- There are no elements to put in order, or too many, or they are out of order. -/
def IsRejected : Prop :=
  c.n1 < 0 ∨ c.n2 < 0 ∨ c.n1 + c.n2 > c.max ∨ ¬ InOrder c.a1 ∨ ¬ InOrder c.a2

/-- The elements of both arrays are at the start of the result, in order. -/
def IsMelded (count : Int) (result : List StdString) : Prop :=
  count = c.n1 + c.n2 ∧ result.take (c.n1 + c.n2).toNat ~ c.a1 ++ c.a2 ∧
    InOrder (result.take (c.n1 + c.n2).toNat)

/-- What `meld` is for. -/
def IsRight : Prop :=
  ∃ count result, c.outcome = some (count, result) ∧
    (c.IsRejected → count = -1) ∧ (¬ c.IsRejected → c.IsMelded count result)

/-- The sum of the sizes is a value of type `int`. -/
def SumFits : Prop :=
  -2147483648 ≤ c.n1 + c.n2 ∧ c.n1 + c.n2 ≤ 2147483647

/-- The arguments for which no loop goes past the end of an array. -/
def EndsInBounds : Prop :=
  c.n1 < 0 ∨ c.n2 < 0 ∨ c.n1 + c.n2 > c.max ∨ c.n1 ≠ 0 ∧ (¬ InOrder c.a1 ∨ c.n2 ≠ 0)

variable {c}

theorem outcome_of_not_fits (h : ¬ c.SumFits) : c.outcome = none := by
  have hsum : intResult (c.n1 + c.n2) = none := if_neg h
  rw [outcome, meld, hsum]
  rfl

theorem outcome_of_fits (h : c.SumFits) :
    c.outcome = if c.n1 < 0 ∨ c.n2 < 0 ∨ c.max < 0 then some (-1, c.result)
      else if c.n1 + c.n2 > c.max then some (-1, c.result)
      else meldLoops c.a1 c.n1 c.a2 c.n2 c.result (c.n1 + c.n2) := by
  have hsum : intResult (c.n1 + c.n2) = some (c.n1 + c.n2) := if_pos h
  rw [outcome, meld, hsum]
  rfl

/-- The sizes alone are a reason to return -1. -/
theorem outcome_of_sizes (hfits : c.SumFits)
    (h : (c.n1 < 0 ∨ c.n2 < 0 ∨ c.max < 0) ∨ c.n1 + c.n2 > c.max) :
    c.outcome = some (-1, c.result) := by
  rw [outcome_of_fits hfits]
  rcases h with h | h
  · exact if_pos h
  · rw [if_pos h, ite_self]

theorem outcome_of_room (hfits : c.SumFits)
    (h : ¬ ((c.n1 < 0 ∨ c.n2 < 0 ∨ c.max < 0) ∨ c.n1 + c.n2 > c.max)) :
    c.outcome = meldLoops c.a1 c.n1 c.a2 c.n2 c.result (c.n1 + c.n2) := by
  obtain ⟨hsizes, hroom⟩ := not_or.1 h
  rw [outcome_of_fits hfits, if_neg hsizes, if_neg hroom]

theorem isRight_of_rejected {result : List StdString} (h : c.IsRejected)
    (hrun : c.outcome = some (-1, result)) : c.IsRight :=
  ⟨-1, result, hrun, fun _ => rfl, fun hnot => absurd h hnot⟩

theorem not_isRight_of_none (h : c.outcome = none) : ¬ c.IsRight := by
  rintro ⟨count, result, hrun, -⟩
  rw [h] at hrun
  cases hrun

section Room

variable (hsizes : ¬ ((c.n1 < 0 ∨ c.n2 < 0 ∨ c.max < 0) ∨ c.n1 + c.n2 > c.max))

include hsizes

theorem sizes_eq : c.n1 = c.a1.length ∧ c.n2 = c.a2.length :=
  ⟨c.length_a1 (by omega), c.length_a2 (by omega)⟩

/-- When the loops stay in bounds if the sizes are no reason to return -1. -/
theorem endsInBounds_iff :
    c.EndsInBounds ↔ c.a1 ≠ [] ∧ (¬ InOrder c.a1 ∨ c.a2 ≠ []) := by
  obtain ⟨hn1, hn2⟩ := sizes_eq hsizes
  have hzero : ∀ a : List StdString, (a.length : Int) ≠ 0 ↔ a ≠ [] := by simp
  rw [EndsInBounds, hn1, hn2, hzero, hzero]
  refine ⟨fun h => ?_, fun h => .inr (.inr (.inr h))⟩
  rcases h with h | h | h | h
  · omega
  · omega
  · omega
  · exact h

/-- Two arrays with elements in order are melded. -/
theorem isRight_of_inOrder (hfits : c.SumFits) (hne1 : c.a1 ≠ []) (horder1 : InOrder c.a1)
    (hne2 : c.a2 ≠ []) (horder2 : InOrder c.a2) : c.IsRight := by
  obtain ⟨hn1, hn2⟩ := sizes_eq hsizes
  have hrun := outcome_of_room hfits hsizes
  have hroom := c.room
  obtain ⟨sorted, tail, hloops, hperm, horder⟩ :=
    meldLoops_sorts c.result hne1 horder1 hne2 horder2 (by omega)
  have hsize : c.n1 + c.n2 = (c.a1 ++ c.a2).length := by
    rw [hn1, hn2, List.length_append]
    rfl
  have htake : (sorted ++ tail).take (c.n1 + c.n2).toNat = sorted := by
    rw [hsize, Int.toNat_natCast, List.take_left' hperm.length_eq]
  rw [hsize, hn1, hn2, hloops] at hrun
  refine ⟨_, _, hrun, fun hrejected => ?_, fun _ => ⟨hsize.symm, ?_, ?_⟩⟩
  · rcases hrejected with h | h | h | h | h
    · omega
    · omega
    · omega
    · exact absurd horder1 h
    · exact absurd horder2 h
  · rwa [htake]
  · rwa [htake]

end Room

/-- `meld` is right exactly if the sum of the sizes is a value of type `int` and either the sizes
are a reason to return -1, or the first array has elements and is out of order or the second one
has elements, too. -/
theorem meld_right_iff (c : MeldCall) : c.IsRight ↔ c.SumFits ∧ c.EndsInBounds := by
  by_cases hfits : c.SumFits
  swap
  · exact iff_of_false (not_isRight_of_none (outcome_of_not_fits hfits)) fun h => hfits h.1
  by_cases hsizes : (c.n1 < 0 ∨ c.n2 < 0 ∨ c.max < 0) ∨ c.n1 + c.n2 > c.max
  · have hrejected : c.n1 < 0 ∨ c.n2 < 0 ∨ c.n1 + c.n2 > c.max := by omega
    refine iff_of_true (isRight_of_rejected ?_ (outcome_of_sizes hfits hsizes)) ⟨hfits, ?_⟩
    · exact hrejected.imp_right (.imp_right .inl)
    · exact hrejected.imp_right (.imp_right .inl)
  rw [and_iff_right hfits, endsInBounds_iff hsizes]
  have hrun := outcome_of_room hfits hsizes
  obtain ⟨hn1, hn2⟩ := sizes_eq hsizes
  rw [hn1, hn2] at hrun
  by_cases hne1 : c.a1 = []
  · rw [hne1] at hrun ⊢
    exact iff_of_false (not_isRight_of_none (hrun.trans meldLoops_nil)) fun h => h.1 rfl
  by_cases horder1 : InOrder c.a1
  swap
  · exact iff_of_true (isRight_of_rejected (.inr (.inr (.inr (.inl horder1))))
      (hrun.trans (meldLoops_disorder horder1))) ⟨hne1, .inl horder1⟩
  by_cases hne2 : c.a2 = []
  · rw [hne2] at hrun
    refine iff_of_false (not_isRight_of_none (hrun.trans (meldLoops_nil_right hne1 horder1)))
      fun h => ?_
    exact h.2.elim (fun hnot => hnot horder1) fun hne => hne hne2
  refine iff_of_true ?_ ⟨hne1, .inr hne2⟩
  by_cases horder2 : InOrder c.a2
  · exact isRight_of_inOrder hsizes hfits hne1 horder1 hne2 horder2
  · exact isRight_of_rejected (.inr (.inr (.inr (.inr horder2))))
      (hrun.trans (meldLoops_disorder_right hne1 horder1 horder2))

/-- A call with an array without elements. -/
def withEmpty : MeldCall :=
  ⟨[], 0, [chars ['a']], 1, [[]], 1, fun _ => rfl, fun _ => rfl, by decide⟩

/-- The loop that checks the order of the empty array goes past it. -/
theorem withEmpty_wrong : ¬ withEmpty.IsRight :=
  not_isRight_of_none (by decide)

end MeldCall

end Coursework.StringArrays
