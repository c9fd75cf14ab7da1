import Coursework.StringArrays.Sweeping
import Coursework.Text.Groups

/-!
# What stays of the groups of an array

The groups of an array under the two loops of `deleteDups`. `markFrom_cases` says which group is
marked, and `kept_flat_iff` for which groups the elements that stay begin with one of each.
Vocabulary and scope: `Coursework.StringArrays.Program`, `Coursework.Text.Groups`.
-/

namespace Coursework.StringArrays

open Roster Groups

abbrev StringGroups := List (StdString × Nat)

/-- The marks are in groups of two or three, and other strings alone. -/
def Tame (q : StringGroups) : Prop :=
  ∀ g ∈ q, if g.1 = deleted then g.2 = 1 ∨ g.2 = 2 else g.2 = 0

/-- The number of groups of marks. -/
def marks (q : StringGroups) : Nat :=
  (heads q).count deleted

section Tame

variable {g : StdString × Nat} {q q' : StringGroups}

theorem tame_nil : Tame [] := fun _ h => absurd h List.not_mem_nil

theorem tame_cons : Tame (g :: q) ↔
    (if g.1 = deleted then g.2 = 1 ∨ g.2 = 2 else g.2 = 0) ∧ Tame q :=
  List.forall_mem_cons

theorem tame_append : Tame (q ++ q') ↔ Tame q ∧ Tame q' :=
  List.forall_mem_append

/-- Without marks there are only strings alone. -/
theorem Tame.flat_eq (h : Tame q) (hmem : deleted ∉ heads q) :
    flat q = heads q ∧ extras q = 0 := by
  induction q with
  | nil => exact ⟨rfl, rfl⟩
  | cons g q ih =>
      obtain ⟨hne, hmem⟩ := List.ne_and_not_mem_of_not_mem_cons hmem
      obtain ⟨hg, hq⟩ := tame_cons.1 h
      rw [if_neg (Ne.symm hne)] at hg
      obtain ⟨hflat, hextras⟩ := ih hq hmem
      rw [flat_cons, heads_cons, extras_cons, hg, hflat, hextras]
      exact ⟨rfl, rfl⟩

/-- There are at most two further marks in each group. -/
theorem Tame.extras_le (h : Tame q) : extras q ≤ 2 * marks q := by
  induction q with
  | nil => exact Nat.le_refl 0
  | cons g q ih =>
      obtain ⟨hg, hq⟩ := tame_cons.1 h
      have hle := ih hq
      rw [extras_cons, marks, heads_cons, List.count_cons]
      rw [marks] at hle
      split_ifs at hg with hdeleted
      · simp only [hdeleted, beq_self_eq_true, if_true]
        omega
      · rw [hg]
        omega

theorem marks_eq_zero (hmem : deleted ∉ heads q) : marks q = 0 :=
  List.count_eq_zero.2 hmem

theorem marks_append : marks (q ++ q') = marks q + marks q' := by
  rw [marks, heads_append, List.count_append]
  rfl

theorem marks_cons_of_ne (h : g.1 ≠ deleted) : marks (g :: q) = marks q :=
  List.count_cons_of_ne h

theorem marks_cons_deleted (e : Nat) : marks ((deleted, e) :: q) = marks q + 1 :=
  List.count_cons_self

/-- The marks behind a group of another string, if there are none in front of it. -/
theorem marks_append_cons (hmem : deleted ∉ heads q) (h : g.1 ≠ deleted) (q' : StringGroups) :
    marks (q ++ g :: q') = marks q' := by
  rw [marks_append, marks_eq_zero hmem, marks_cons_of_ne h, Nat.zero_add]

end Tame

/-! ## The elements that stay -/

section Kept

variable {gs : StringGroups} {g : StdString × Nat} {x : StdString} {e : Nat}

/-- Elements that are not marks stay. -/
theorem kept_append_cons {l : List StdString} (h : deleted ∉ l) (hx : x ≠ deleted)
    (rest : List StdString) :
    kept (l ++ x :: rest) = l ++ x :: kept rest ∧ dropped (l ++ x :: rest) = dropped rest := by
  rw [kept_append h, dropped_append h, kept_cons_of_ne hx, dropped_cons_of_ne hx]
  exact ⟨rfl, rfl⟩

theorem not_mem_replicate (h : x ≠ deleted) (m : Nat) : deleted ∉ List.replicate m x :=
  fun hmem => h (List.eq_of_mem_replicate hmem).symm

theorem kept_flat_cons (h : x ≠ deleted) (e : Nat) (gs : StringGroups) :
    kept (flat ((x, e) :: gs)) = List.replicate (e + 1) x ++ kept (flat gs) ∧
      dropped (flat ((x, e) :: gs)) = dropped (flat gs) :=
  ⟨kept_append (not_mem_replicate h (e + 1)) _, dropped_append (not_mem_replicate h (e + 1)) _⟩

/-- Marks in front of another group. -/
theorem kept_marks_flat (h : g.1 ≠ deleted) (m : Nat) (gs : StringGroups) :
    kept (List.replicate m deleted ++ flat (g :: gs)) =
        List.replicate (m / 2) deleted ++ kept (flat (g :: gs)) ∧
      dropped (List.replicate m deleted ++ flat (g :: gs)) =
        (m + 1) / 2 + dropped (flat (g :: gs)) := by
  rw [flat_cons, kept_cons_of_ne h, dropped_cons_of_ne h]
  exact kept_replicate_cons h m _

/-- Where a run of one element is exactly one element long. -/
theorem replicate_append_eq_iff {y : StdString} {s t : List StdString} {k : Nat} (hne : x ≠ y)
    (ht : k = 0 → t.head? ≠ some x) :
    List.replicate k x ++ t = x :: y :: s ↔ k = 1 ∧ t = y :: s := by
  match k with
  | 0 =>
      refine iff_of_false (fun h => ht rfl ?_) nofun
      rw [List.replicate_zero, List.nil_append] at h
      rw [h]
      rfl
  | 1 => simp
  | k + 2 => simp [List.replicate_succ, hne]

/-- All groups but the last are tame, and the last one, which has no marks, is longer by the marks
that are too many. -/
def LongerLast (gs : StringGroups) (moved : Nat) (z : List StdString) : Prop :=
  ∃ q x e, gs = q ++ [(x, e)] ∧ Tame q ∧ x ≠ deleted ∧ z = List.replicate e x ∧
    e = moved + extras q

theorem longerLast_singleton {moved : Nat} {z : List StdString} :
    LongerLast [(x, e)] moved z ↔ x ≠ deleted ∧ z = List.replicate e x ∧ e = moved := by
  constructor
  · rintro ⟨q, x', e', hgs, -, hx, hz, he⟩
    obtain ⟨rfl, hlast⟩ := List.append_eq_singleton_iff.1 hgs.symm |>.resolve_right (by simp)
    obtain ⟨rfl, rfl⟩ := Prod.mk.inj (List.singleton_inj.1 hlast)
    exact ⟨hx, hz, by simpa using he⟩
  · rintro ⟨hx, hz, he⟩
    exact ⟨[], x, e, rfl, tame_nil, hx, hz, by simpa using he⟩

theorem longerLast_cons {moved : Nat} {z : List StdString} :
    LongerLast ((x, e) :: g :: gs) moved z ↔
      (if x = deleted then e = 1 ∨ e = 2 else e = 0) ∧ LongerLast (g :: gs) (moved + e) z := by
  constructor
  · rintro ⟨q, x', e', hgs, hq, hx, hz, he⟩
    cases q with
    | nil => simp at hgs
    | cons g' q =>
        rw [List.cons_append] at hgs
        obtain ⟨rfl, hgs'⟩ := List.cons.inj hgs
        obtain ⟨hg, hq⟩ := tame_cons.1 hq
        rw [extras_cons] at he
        exact ⟨hg, q, x', e', hgs', hq, hx, hz, by omega⟩
  · rintro ⟨hg, q, x', e', hgs, hq, hx, hz, he⟩
    refine ⟨(x, e) :: q, x', e', by rw [hgs, List.cons_append], tame_cons.2 ⟨hg, hq⟩, hx, hz, ?_⟩
    rw [extras_cons]
    omega

theorem kept_flat_singleton_iff {moved : Nat} {z : List StdString} :
    kept (flat [(x, e)]) = heads [(x, e)] ++ z ∧ z.length = moved + dropped (flat [(x, e)]) ↔
      x ≠ deleted ∧ z = List.replicate e x ∧ e = moved := by
  by_cases hx : x = deleted
  · subst hx
    obtain ⟨hkept, hdropped⟩ := kept_replicate (e + 1)
    have hflat : flat [(deleted, e)] = List.replicate (e + 1) deleted := by
      simp [List.replicate_succ]
    rw [hflat, hkept, hdropped]
    refine iff_of_false (fun h => ?_) fun h => h.1 rfl
    have hlength := congrArg List.length h.1
    simp at hlength
    omega
  · obtain ⟨hkept, hdropped⟩ := kept_flat_cons hx e []
    rw [hkept, hdropped]
    constructor
    · intro h
      have hz : z = List.replicate e x := by
        simpa [List.replicate_succ] using h.1.symm
      refine ⟨hx, hz, ?_⟩
      simpa [hz] using h.2
    · rintro ⟨-, hz, he⟩
      rw [hz, he]
      exact ⟨by simp [List.replicate_succ], by simp⟩

/-- A group in front of others is tame, and its further marks are to be moved. -/
theorem kept_flat_step_iff (hxg : x ≠ g.1) {moved : Nat} {z : List StdString} :
    kept (flat ((x, e) :: g :: gs)) = heads ((x, e) :: g :: gs) ++ z ∧
        z.length = moved + dropped (flat ((x, e) :: g :: gs)) ↔
      (if x = deleted then e = 1 ∨ e = 2 else e = 0) ∧
        kept (flat (g :: gs)) = heads (g :: gs) ++ z ∧
        z.length = moved + e + dropped (flat (g :: gs)) := by
  show _ = x :: g.1 :: (heads gs ++ z) ∧ _ ↔ _ ∧ _ = g.1 :: (heads gs ++ z) ∧ _
  by_cases hx : x = deleted
  · subst hx
    obtain ⟨hkept, hdropped⟩ := kept_marks_flat hxg.symm (e + 1) gs
    have hhead : (kept (flat (g :: gs))).head? ≠ some deleted := by
      rw [flat_cons, kept_cons_of_ne hxg.symm]
      exact fun h => hxg (Option.some.inj h).symm
    have hrun : (e + 1) / 2 = 1 ↔ e = 1 ∨ e = 2 := by omega
    rw [show flat ((deleted, e) :: g :: gs) =
      List.replicate (e + 1) deleted ++ flat (g :: gs) from rfl, hkept, hdropped,
      replicate_append_eq_iff hxg fun _ => hhead, if_pos rfl, hrun, and_assoc]
    refine and_congr_right fun he => and_congr_right fun _ => ?_
    omega
  · obtain ⟨hkept, hdropped⟩ := kept_flat_cons hx e (g :: gs)
    have hone : e + 1 = 1 ↔ e = 0 := by omega
    rw [hkept, hdropped, replicate_append_eq_iff hxg (fun h => absurd h (by omega)),
      if_neg hx, hone, and_assoc]
    refine and_congr_right fun he => and_congr_right fun _ => ?_
    rw [he, Nat.add_zero]

/-- The elements that stay begin with one of each group, and the further ones are as many as the
marks that are moved, exactly if the last group is longer by the marks that are too many. By
induction on the groups, with the marks that are moved in front of them. -/
theorem kept_flat_iff (hdiffer : Differ gs) (hne : gs ≠ []) (moved : Nat) (z : List StdString) :
    kept (flat gs) = heads gs ++ z ∧ z.length = moved + dropped (flat gs) ↔
      LongerLast gs moved z := by
  induction gs generalizing moved with
  | nil => exact absurd rfl hne
  | cons g gs ih =>
      obtain ⟨x, e⟩ := g
      cases gs with
      | nil => rw [longerLast_singleton, kept_flat_singleton_iff]
      | cons g gs =>
          rw [longerLast_cons, ← ih hdiffer.tail (List.cons_ne_nil _ _),
            kept_flat_step_iff (List.isChain_cons_cons.1 hdiffer).1]

end Kept

/-! ## The group that is marked -/

section Marked

variable {seen l rest : List StdString} {x : StdString}

/-- Where no neighbours are equal and no mark stands, nothing is marked. -/
theorem markFrom_append (hmem : deleted ∉ l) (rest : List StdString)
    (hchain : (l ++ rest.head?.toList).IsChain (· ≠ ·)) :
    markFrom seen (l ++ rest) = l ++ markFrom (seen ++ l) rest := by
  induction l generalizing seen with
  | nil => rw [List.nil_append, List.nil_append, List.append_nil]
  | cons x l ih =>
      obtain ⟨hne, hmem⟩ := List.ne_and_not_mem_of_not_mem_cons hmem
      have hhead : (l ++ rest).head? ≠ some x := by
        intro heq
        cases l with
        | nil =>
            rw [List.nil_append] at heq
            rw [heq] at hchain
            exact (List.isChain_cons_cons.1 hchain).1 rfl
        | cons y l =>
            obtain rfl := Option.some.inj heq
            exact (List.isChain_cons_cons.1 hchain).1 rfl
      rw [List.cons_append, markFrom, if_neg (Ne.symm hne), if_pos (.inr hhead),
        ih hmem hchain.tail, List.append_assoc, List.singleton_append, List.cons_append]

/-- A mark ends the loop. -/
theorem markFrom_deleted (seen l : List StdString) :
    markFrom seen (deleted :: l) = deleted :: l :=
  if_pos rfl

/-- The first sequence of a string is marked if it has several elements. -/
theorem markFrom_new (hx : x ≠ deleted) (hnew : x ∉ seen) (hrest : rest.head? ≠ some x)
    (extra : Nat) :
    markFrom seen (x :: (List.replicate (extra + 1) x ++ rest)) =
      x :: (List.replicate (extra + 1) deleted ++ rest) := by
  obtain ⟨htake, hdrop⟩ := span_replicate hrest (extra + 1)
  have hpass : ¬ (x ∈ seen ∨ (List.replicate (extra + 1) x ++ rest).head? ≠ some x) := by
    simp [hnew, List.replicate_succ]
  rw [markFrom, if_neg hx, if_neg hpass, htake, hdrop, List.length_replicate]

/-- The other ones are not. -/
theorem markFrom_seen (hx : x ≠ deleted) (hseen : x ∈ seen) (k : Nat) (rest : List StdString) :
    markFrom seen (List.replicate k x ++ rest) =
      List.replicate k x ++ markFrom (seen ++ List.replicate k x) rest := by
  induction k generalizing seen with
  | zero => simp
  | succ k ih =>
      rw [List.replicate_succ, List.cons_append, markFrom, if_neg hx, if_pos (.inl hseen),
        ih (List.mem_append_left _ hseen), List.append_assoc, List.singleton_append,
        List.cons_append]

/-- Either nothing is marked, or the elements of a group of a new string are, but for the first
one. -/
theorem markFrom_cases {gs : StringGroups} (hdiffer : Differ gs) (seen : List StdString) :
    markFrom seen (flat gs) = flat gs ∨
      ∃ p y g post, gs = p ++ (y, g + 1) :: post ∧ deleted ∉ heads p ∧ y ≠ deleted ∧
        y ∉ seen ++ heads p ∧ markFrom seen (flat gs) =
          flat p ++ y :: (List.replicate (g + 1) deleted ++ flat post) := by
  induction gs generalizing seen with
  | nil => exact .inl rfl
  | cons g gs ih =>
      obtain ⟨x, e⟩ := g
      by_cases hx : x = deleted
      · exact .inl (if_pos hx)
      by_cases hpass : x ∈ seen ∨ e = 0
      · -- the group is passed
        have hmark : markFrom seen (flat ((x, e) :: gs)) = x :: (List.replicate e x ++
            markFrom (seen ++ [x] ++ List.replicate e x) (flat gs)) := by
          rcases hpass with hseen | rfl
          · rw [flat_cons, markFrom, if_neg hx, if_pos (.inl hseen),
              markFrom_seen hx (List.mem_append_left _ hseen)]
          · rw [flat_cons, List.replicate_zero, List.nil_append, markFrom, if_neg hx,
              if_pos (.inr hdiffer.head?_ne), List.append_nil, List.nil_append]
        rcases ih hdiffer.tail (seen ++ [x] ++ List.replicate e x) with hsame |
          ⟨p, y, g, post, rfl, hmem, hy, hnew, hmarked⟩
        · left
          rw [hmark, hsame, flat_cons]
        · refine .inr ⟨(x, e) :: p, y, g, post, rfl, ?_, hy, ?_, ?_⟩
          · exact List.not_mem_cons_of_ne_of_not_mem (Ne.symm hx) hmem
          · simp only [List.mem_append, not_or, heads_cons, List.mem_cons] at hnew ⊢
            exact ⟨hnew.1.1.1, hnew.1.1.2.1, hnew.2⟩
          · rw [hmark, hmarked, flat_cons]
            simp
      · obtain ⟨hnew, hzero⟩ := not_or.1 hpass
        obtain ⟨e, rfl⟩ := Nat.exists_eq_succ_of_ne_zero hzero
        refine .inr ⟨[], x, e, gs, rfl, List.not_mem_nil, hx, by simpa using hnew, ?_⟩
        exact markFrom_new hx hnew hdiffer.head?_ne e

end Marked

/-! ## What a second call returns -/

section Second

variable {l : List StdString} {x : StdString}

/-- Every mark that stands alone takes away the element behind it. -/
theorem kept_of_isChain (hchain : l.IsChain (· ≠ ·)) (hlast : l.getLast? ≠ some deleted)
    (rest : List StdString) :
    kept (l ++ rest) = l.filter (· ≠ deleted) ++ kept rest ∧
      dropped (l ++ rest) = l.count deleted + dropped rest := by
  induction l with
  | nil => exact ⟨rfl, (Nat.zero_add _).symm⟩
  | cons x l ih =>
      by_cases hx : x = deleted
      · subst hx
        cases l with
        | nil => exact absurd rfl hlast
        | cons y l =>
            have hy : y ≠ deleted := (List.isChain_cons_cons.1 hchain).1.symm
            obtain ⟨hkept, hdropped⟩ := ih hchain.tail (by rwa [List.getLast?_cons_cons] at hlast)
            rw [List.cons_append, kept_cons_of_ne hy] at hkept
            rw [List.cons_append, dropped_cons_of_ne hy] at hdropped
            rw [List.cons_append, List.cons_append, kept_deleted_cons, dropped_deleted_cons, hkept,
              hdropped, List.count_cons_self]
            exact ⟨by simp, by omega⟩
      · have hlast' : l.getLast? ≠ some deleted := by
          cases l with
          | nil => exact nofun
          | cons y l => rwa [List.getLast?_cons_cons] at hlast
        obtain ⟨hkept, hdropped⟩ := ih hchain.tail hlast'
        rw [List.cons_append, kept_cons_of_ne hx, dropped_cons_of_ne hx, hkept, hdropped,
          List.count_cons_of_ne hx]
        exact ⟨by simp [hx], rfl⟩

/-- Nothing is marked in front of a mark, or at all, if no neighbours are equal there. -/
theorem markFrom_of_isChain (hchain : l.IsChain (· ≠ ·)) (hmem : deleted ∉ l) (m : Nat)
    (rest : List StdString) (hrest : m = 0 → rest = []) :
    markFrom [] (l ++ (List.replicate m deleted ++ rest)) =
      l ++ (List.replicate m deleted ++ rest) := by
  cases m with
  | zero =>
      rw [hrest rfl, List.replicate_zero, List.nil_append]
      exact markFrom_append hmem [] (by simpa using hchain)
  | succ m =>
      have hstart : (l ++ [deleted]).IsChain (· ≠ ·) := by
        refine hchain.append (List.isChain_singleton _) fun x hx y hy => ?_
        obtain rfl := Option.some.inj hy
        exact ne_of_mem_of_not_mem (List.mem_of_getLast? hx) hmem
      rw [List.replicate_succ, List.cons_append,
        markFrom_append hmem (deleted :: (List.replicate m deleted ++ rest)) hstart,
        markFrom_deleted]

/-- With marks among the elements the result shrinks by the further ones and the elements that
they take away. -/
theorem retained_of_mem (hchain : l.IsChain (· ≠ ·)) (hlast : l.getLast? = some x)
    (hx : x ≠ deleted) (hmem : deleted ∈ l) (e m : Nat) :
    retained (l ++ (List.replicate e x ++ List.replicate m deleted)) =
      l.length - 2 * l.count deleted + e := by
  have hsame : ∀ rest, markFrom [] (l ++ rest) = l ++ rest := by
    intro rest
    obtain ⟨before, after, rfl, hbefore⟩ := List.eq_append_cons_of_mem hmem
    have h := markFrom_of_isChain hchain.left_of_append hbefore 1 (after ++ rest) nofun
    simpa using h
  obtain ⟨hkept, hdropped⟩ := kept_of_isChain hchain
    (by rw [hlast]; exact fun h => hx (Option.some.inj h))
    (List.replicate e x ++ List.replicate m deleted)
  have hcount : l.length = l.count deleted + (l.filter (· ≠ deleted)).length := by
    have h := List.length_eq_countP_add_countP (· == deleted) (l := l)
    rw [List.countP_eq_length_filter (p := fun a => decide _)] at h
    simpa [List.count] using h
  rw [retained, hsame, hkept, hdropped, kept_append (not_mem_replicate hx e),
    dropped_append (not_mem_replicate hx e), (kept_replicate m).1, (kept_replicate m).2]
  simp only [List.length_append, List.length_replicate]
  omega

/-- Marks at the end are no elements. -/
theorem retained_of_not_mem (hchain : l.IsChain (· ≠ ·)) (hmem : deleted ∉ l) (m : Nat) :
    retained (l ++ List.replicate m deleted) = l.length := by
  have hsame := markFrom_of_isChain hchain hmem m [] fun _ => rfl
  rw [List.append_nil] at hsame
  rw [retained, hsame, kept_append hmem, dropped_append hmem, (kept_replicate m).1,
    (kept_replicate m).2, List.length_append, List.length_replicate]
  omega

/-- One further element at the end is marked if it is new. -/
theorem retained_of_two (hchain : (l ++ [x]).IsChain (· ≠ ·)) (hmem : deleted ∉ l ++ [x])
    (m : Nat) :
    retained (l ++ [x] ++ (x :: List.replicate m deleted)) =
      if x ∈ l then (l ++ [x]).length + 1 else (l ++ [x]).length := by
  have hl : deleted ∉ l := fun h => hmem (List.mem_append_left _ h)
  have hx : x ≠ deleted := fun h => hmem (h ▸ List.mem_append_right _ (List.mem_singleton_self x))
  have hmarks : (List.replicate m deleted).head? ≠ some x := by
    cases m with
    | zero => exact nofun
    | succ m => exact fun h => hx (Option.some.inj h).symm
  rw [retained, List.append_assoc, List.singleton_append,
    markFrom_append hl (x :: x :: List.replicate m deleted) hchain, List.nil_append]
  split_ifs with hold
  · have hsame : markFrom l (x :: x :: List.replicate m deleted) =
        x :: x :: List.replicate m deleted := by
      have hmark : ∀ seen, markFrom seen (List.replicate m deleted) = List.replicate m deleted := by
        intro seen
        cases m with
        | zero => rfl
        | succ m => exact markFrom_deleted seen (List.replicate m deleted)
      have hseen := markFrom_seen hx hold 2 (List.replicate m deleted)
      rwa [hmark] at hseen
    rw [hsame, kept_append hl, dropped_append hl, kept_cons_of_ne hx, kept_cons_of_ne hx,
      dropped_cons_of_ne hx, dropped_cons_of_ne hx, (kept_replicate m).1, (kept_replicate m).2]
    simp only [List.length_append, List.length_cons, List.length_nil, List.length_replicate]
    omega
  · have hnew := markFrom_new hx hold hmarks 0
    rw [show x :: x :: List.replicate m deleted =
        x :: (List.replicate (0 + 1) x ++ List.replicate m deleted) from rfl, hnew,
      ← List.replicate_add, kept_append hl, dropped_append hl, kept_cons_of_ne hx,
      dropped_cons_of_ne hx, (kept_replicate _).1, (kept_replicate _).2]
    simp only [List.length_append, List.length_cons, List.length_nil, List.length_replicate]
    omega

end Second

end Coursework.StringArrays
