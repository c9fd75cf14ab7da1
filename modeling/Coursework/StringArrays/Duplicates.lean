import Coursework.StringArrays.Retained

/-!
# When `deleteDups` deletes the duplicates

`deleteDups_right_iff` says for which arrays `deleteDups` keeps one element of each group, in
order, and returns their number, also when it is called again. The errors of its two loops have to
cancel out, so besides arrays without duplicates these are the ones that `Deletable` describes.
Vocabulary and scope: `Coursework.StringArrays.Program`, `Coursework.StringArrays.Retained`.
-/

namespace Coursework.StringArrays

open Roster Groups

/-- What `deleteDups` is for: it returns the number of groups, leaves one element of each in order
at the start of the array, and returns the same number when it is called again. -/
def RetainsGroups (a : List StdString) : Prop :=
  ∃ (r : Nat) (b : List StdString), deleteDups a a.length = some ((r : Int), b) ∧
    b.length = a.length ∧ r = (groups a).length ∧ b.take r = heads (groups a) ∧
    ∃ b', deleteDups b b.length = some ((r : Int), b')

/-- The groups for which `deleteDups` is right. A pair is an element and the number of its further
copies. -/
inductive Deletable : StringGroups → Prop where
  | nil : Deletable []
  /-- All groups of marks have three elements, all other groups one, but for the last group, which
  has two more for each group of marks. -/
  | threefold {q : StringGroups} {x : StdString} {e : Nat} (hq : Tame q) (hx : x ≠ deleted)
      (hextras : extras q = 2 * marks q) (he : e = 2 * marks q) : Deletable (q ++ [(x, e)])
  /-- There are no marks, and only a new string at the end has duplicates. -/
  | last {q : StringGroups} {x : StdString} {e : Nat} (hq : Tame q) (hmem : deleted ∉ heads q)
      (hx : x ≠ deleted) (hnew : x ∉ heads q) : Deletable (q ++ [(x, e)])
  /-- There are no marks, and two new strings have one duplicate each, one of them at the end. -/
  | two {p u : StringGroups} {x y : StdString} (hp : Tame p) (hu : Tame u)
      (hmemp : deleted ∉ heads p) (hmemu : deleted ∉ heads u) (hy : y ≠ deleted)
      (hynew : y ∉ heads p) (hx : x ≠ deleted) (hxnew : x ∉ heads p ++ y :: heads u) :
      Deletable (p ++ (y, 1) :: (u ++ [(x, 1)]))
  /-- One new string in front of all marks, but not directly, has one duplicate, and one group of
  marks has two elements instead of three. -/
  | apart {p u : StringGroups} {x y : StdString} {e : Nat} (hp : Tame p) (hu : Tame u)
      (hmemp : deleted ∉ heads p) (hmemu : deleted ∈ heads u)
      (hfirst : (heads u).head? ≠ some deleted) (hy : y ≠ deleted) (hynew : y ∉ heads p)
      (hx : x ≠ deleted) (hextras : extras u + 1 = 2 * marks u) (he : e = 2 * marks u) :
      Deletable (p ++ (y, 1) :: (u ++ [(x, e)]))
  /-- One new string directly in front of the first marks has duplicates, and together these are
  three. -/
  | beside {p u : StringGroups} {x y : StdString} {g f e : Nat} (hp : Tame p) (hu : Tame u)
      (hmemp : deleted ∉ heads p) (hy : y ≠ deleted) (hynew : y ∉ heads p) (hx : x ≠ deleted)
      (hg : 1 ≤ g) (hgf : g + f = 2) (hextras : extras u = 2 * marks u)
      (he : e = 2 * (marks u + 1)) :
      Deletable (p ++ (y, g) :: (deleted, f) :: (u ++ [(x, e)]))

variable {a : List StdString}

/-! ## Both calls -/

/-- What is known of an array for which `deleteDups` is right. -/
theorem RetainsGroups.exists_further (h : RetainsGroups a) :
    ∃ z m, kept (markFrom [] a) = heads (groups a) ++ z ∧ z.length = dropped (markFrom [] a) ∧
      retained (heads (groups a) ++ (z ++ List.replicate m deleted)) = (groups a).length := by
  obtain ⟨r, b, hrun, -, hr, htake, b', hagain⟩ := h
  rw [deleteDups_eq] at hrun
  obtain ⟨hcount, rfl⟩ := Prod.mk.inj (Option.some.inj hrun)
  rw [retained] at hcount
  have hle : r ≤ (kept (markFrom [] a)).length := by omega
  rw [remaining, List.take_append_of_le_length hle] at htake
  have hsplit : kept (markFrom [] a) =
      heads (groups a) ++ (kept (markFrom [] a)).drop r := by
    rw [← htake, List.take_append_drop]
  refine ⟨(kept (markFrom [] a)).drop r, a.length - (kept (markFrom [] a)).length, hsplit, ?_, ?_⟩
  · rw [List.length_drop]
    omega
  · rw [deleteDups_eq] at hagain
    rw [← List.append_assoc, ← hsplit, ← hr]
    exact (Prod.mk.inj (Option.some.inj hagain)).1

theorem retainsGroups_of {z : List StdString}
    (hkept : kept (markFrom [] a) = heads (groups a) ++ z)
    (hdropped : z.length = dropped (markFrom [] a))
    (hagain : ∀ m, retained (heads (groups a) ++ (z ++ List.replicate m deleted)) =
      (groups a).length) : RetainsGroups a := by
  have hlength := congrArg List.length hkept
  rw [List.length_append, length_heads] at hlength
  have hcount : retained a = (groups a).length := by
    rw [retained]
    omega
  have hremaining : remaining a = heads (groups a) ++
      (z ++ List.replicate (a.length - (kept (markFrom [] a)).length) deleted) := by
    rw [← List.append_assoc, ← hkept, remaining]
  refine ⟨(groups a).length, remaining a, ?_, length_remaining a, rfl, ?_, ?_⟩
  · rw [deleteDups_eq, hcount]
  · rw [hremaining, List.take_left' (length_heads _)]
  · refine ⟨remaining (remaining a), ?_⟩
    rw [deleteDups_eq]
    refine congrArg some (Prod.ext ?_ rfl)
    show retained (remaining a) = _
    rw [hremaining, hagain]

/-! ## The condition is necessary -/

section Necessary

variable {gs p q post : StringGroups} {x y : StdString} {e g m : Nat} {z s t : List StdString}

/-- The groups in front of the marked one have one element each. -/
theorem flat_eq_heads (hdiffer : Differ (p ++ (y, g) :: post))
    (h : flat p ++ y :: s = heads p ++ y :: t) : (∀ g ∈ p, g.2 = 0) ∧ s = t := by
  induction p with
  | nil => exact ⟨fun _ h => absurd h List.not_mem_nil, (List.cons.inj h).2⟩
  | cons g p ih =>
      obtain ⟨x, e⟩ := g
      -- the head of the next group
      obtain ⟨w, rest, hw, hxw⟩ : ∃ w rest, heads p ++ y :: t = w :: rest ∧ x ≠ w := by
        cases p with
        | nil => exact ⟨y, t, rfl, (List.isChain_cons_cons.1 hdiffer).1⟩
        | cons g' p => exact ⟨g'.1, heads p ++ y :: t, rfl, (List.isChain_cons_cons.1 hdiffer).1⟩
      have hrun : List.replicate (e + 1) x ++ (flat p ++ y :: s) = x :: w :: rest := by
        rw [← hw]
        simpa [List.replicate_succ] using h
      obtain ⟨hone, hrest⟩ := (replicate_append_eq_iff hxw (fun h => absurd h (by omega))).1 hrun
      obtain ⟨hp, hst⟩ := ih hdiffer.tail (hrest.trans hw.symm)
      exact ⟨List.forall_mem_cons.2 ⟨by simpa using hone, hp⟩, hst⟩

/-- Marks in front of a group of marks. -/
theorem replicate_append_flat (k f : Nat) (post : StringGroups) :
    List.replicate k deleted ++ flat ((deleted, f) :: post) =
      List.replicate (k + (f + 1)) deleted ++ flat post := by
  rw [List.replicate_add, List.append_assoc]
  rfl

theorem tame_of_zero (hzero : ∀ g ∈ p, g.2 = 0) (hmem : deleted ∉ heads p) : Tame p := by
  intro g hg
  have hne : g.1 ≠ deleted := fun h => hmem (h ▸ List.mem_map_of_mem hg)
  rw [if_neg hne]
  exact hzero g hg

/-- With marks among the elements, a second call returns the same number exactly if the last group
has two further elements for each group of marks. -/
theorem retained_again_iff (hdiffer : Differ (q ++ [(x, e)])) (hx : x ≠ deleted)
    (hmem : deleted ∈ heads q) :
    retained (heads (q ++ [(x, e)]) ++ (List.replicate e x ++ List.replicate m deleted)) =
      (q ++ [(x, e)]).length ↔ e = 2 * marks q := by
  have hlast : (heads (q ++ [(x, e)])).getLast? = some x := by simp
  have hmem' : deleted ∈ heads (q ++ [(x, e)]) := by
    rw [heads_append]
    exact List.mem_append_left _ hmem
  have hcount : (heads (q ++ [(x, e)])).count deleted = marks q := by
    rw [heads_append, List.count_append, marks]
    simp [hx]
  rw [retained_of_mem hdiffer hlast hx hmem', hcount, length_heads]
  omega

/-- Nothing is marked. -/
theorem deletable_of_longerLast (hdiffer : Differ gs) (hlonger : LongerLast gs 0 z)
    (hagain : retained (heads gs ++ (z ++ List.replicate m deleted)) = gs.length) :
    Deletable gs := by
  obtain ⟨q, x, e, rfl, hq, hx, rfl, he⟩ := hlonger
  rw [Nat.zero_add] at he
  by_cases hmem : deleted ∈ heads q
  · have he' := (retained_again_iff hdiffer hx hmem).1 hagain
    exact .threefold hq hx (he.symm.trans he') he'
  · have hextras := (hq.flat_eq hmem).2
    have hmarks := marks_eq_zero hmem
    exact .threefold hq hx (by omega) (by omega)

/-- Without marks the last string is new, or a second call would not mark its second element. -/
theorem deletable_of_two (hdiffer : Differ (p ++ (y, 1) :: (q ++ [(x, 1)]))) (hp : Tame p)
    (hq : Tame q) (hmem : deleted ∉ heads p) (hmemq : deleted ∉ heads q) (hy : y ≠ deleted)
    (hnew : y ∉ heads p) (hx : x ≠ deleted)
    (hagain : retained (heads (p ++ (y, 1) :: (q ++ [(x, 1)])) ++
      (List.replicate 1 x ++ List.replicate m deleted)) = (p ++ (y, 1) :: (q ++ [(x, 1)])).length) :
    Deletable (p ++ (y, 1) :: (q ++ [(x, 1)])) := by
  refine .two hp hq hmem hmemq hy hnew hx fun hold => ?_
  have hchain : (heads p ++ y :: heads q ++ [x]).IsChain (· ≠ ·) := by
    simpa [Differ] using hdiffer
  have hmem' : deleted ∉ heads p ++ y :: heads q ++ [x] := by
    simp [hmem, hmemq, hy.symm, hx.symm]
  have htwo := retained_of_two hchain hmem' m
  rw [if_pos hold] at htwo
  have hsame : heads (p ++ (y, 1) :: (q ++ [(x, 1)])) ++
      (List.replicate 1 x ++ List.replicate m deleted) =
      heads p ++ y :: heads q ++ [x] ++ (x :: List.replicate m deleted) := by simp
  have hlength : (heads p ++ y :: heads q ++ [x]).length =
      (p ++ (y, 1) :: (q ++ [(x, 1)])).length := by
    simp only [List.length_append, List.length_cons, List.length_nil, length_heads]
    omega
  rw [hsame, htwo, hlength] at hagain
  omega

/-- The group behind the marked one has no marks. -/
theorem deletable_of_apart {w : StdString × Nat} (hdiffer : Differ (p ++ (y, g + 1) :: w :: post))
    (hp : Tame p) (hmem : deleted ∉ heads p) (hy : y ≠ deleted) (hnew : y ∉ heads p)
    (hw : w.1 ≠ deleted)
    (hkept : kept (List.replicate (g + 1) deleted ++ flat (w :: post)) = heads (w :: post) ++ z)
    (hdropped : z.length = dropped (List.replicate (g + 1) deleted ++ flat (w :: post)))
    (hagain : retained (heads (p ++ (y, g + 1) :: w :: post) ++
      (z ++ List.replicate m deleted)) = (p ++ (y, g + 1) :: w :: post).length) :
    Deletable (p ++ (y, g + 1) :: w :: post) := by
  have hdiffer' : Differ (w :: post) := hdiffer.of_append.tail
  obtain ⟨hblock, hmoved⟩ := kept_marks_flat hw (g + 1) post
  rw [hblock] at hkept
  rw [hmoved] at hdropped
  have hg : g = 0 := by
    by_contra hg
    obtain ⟨k, hk⟩ : ∃ k, (g + 1) / 2 = k + 1 := ⟨(g + 1) / 2 - 1, by omega⟩
    rw [hk, List.replicate_succ, heads_cons] at hkept
    exact hw (List.cons.inj hkept).1.symm
  subst hg
  obtain ⟨u, x, e, hpost, hu, hx, rfl, he⟩ :=
    (kept_flat_iff hdiffer' (List.cons_ne_nil _ _) 1 z).1 ⟨hkept, hdropped⟩
  have hfirst : (heads u).head? ≠ some deleted := by
    cases u with
    | nil => exact nofun
    | cons w' u =>
        rw [List.cons_append] at hpost
        obtain ⟨rfl, -⟩ := List.cons.inj hpost
        exact fun h => hw (Option.some.inj h)
  rw [hpost] at hdiffer hagain ⊢
  by_cases hmemu : deleted ∈ heads u
  · have hgroups : p ++ (y, 0 + 1) :: (u ++ [(x, e)]) = (p ++ (y, 1) :: u) ++ [(x, e)] := by simp
    rw [hgroups] at hdiffer hagain
    have he' := (retained_again_iff hdiffer hx (by simp [hmemu])).1 hagain
    rw [marks_append_cons hmem hy] at he'
    exact .apart hp hu hmem hmemu hfirst hy hnew hx (by omega) he'
  · have hextras := (hu.flat_eq hmemu).2
    obtain rfl : e = 1 := by omega
    exact deletable_of_two hdiffer hp hu hmem hmemu hy hnew hx hagain

/-- The group behind the marked one is one of marks. -/
theorem deletable_of_beside {f : Nat}
    (hdiffer : Differ (p ++ (y, g + 1) :: (deleted, f) :: post)) (hp : Tame p)
    (hmem : deleted ∉ heads p) (hy : y ≠ deleted) (hnew : y ∉ heads p)
    (hkept : kept (List.replicate (g + 1) deleted ++ flat ((deleted, f) :: post)) =
      heads ((deleted, f) :: post) ++ z)
    (hdropped : z.length =
      dropped (List.replicate (g + 1) deleted ++ flat ((deleted, f) :: post)))
    (hagain : retained (heads (p ++ (y, g + 1) :: (deleted, f) :: post) ++
      (z ++ List.replicate m deleted)) = (p ++ (y, g + 1) :: (deleted, f) :: post).length) :
    Deletable (p ++ (y, g + 1) :: (deleted, f) :: post) := by
  -- the marks of both groups
  rw [replicate_append_flat] at hkept hdropped
  cases post with
  | nil =>
      obtain ⟨hstay, hmoved⟩ := kept_replicate (g + 1 + (f + 1))
      rw [flat_nil, List.append_nil, hstay] at hkept
      rw [flat_nil, List.append_nil, hmoved] at hdropped
      have hlength := congrArg List.length hkept
      simp at hlength
      omega
  | cons w post =>
      have hdiffer' : Differ ((deleted, f) :: w :: post) := hdiffer.of_append.tail
      have hw : deleted ≠ w.1 := (List.isChain_cons_cons.1 hdiffer').1
      obtain ⟨hstay, hmoved⟩ := kept_marks_flat hw.symm (g + 1 + (f + 1)) post
      rw [hmoved] at hdropped
      have hhead : (kept (flat (w :: post))).head? ≠ some deleted := by
        rw [flat_cons, kept_cons_of_ne hw.symm]
        exact fun h => hw (Option.some.inj h).symm
      rw [hstay, heads_cons, heads_cons, List.cons_append, List.cons_append,
        replicate_append_eq_iff hw fun _ => hhead] at hkept
      obtain ⟨u, x, e, hpost, hu, hx, rfl, he⟩ :=
        (kept_flat_iff hdiffer'.tail (List.cons_ne_nil _ _) _ z).1 ⟨hkept.2, hdropped⟩
      rw [hpost] at hdiffer hagain ⊢
      have hgroups : p ++ (y, g + 1) :: (deleted, f) :: (u ++ [(x, e)]) =
          (p ++ (y, g + 1) :: (deleted, f) :: u) ++ [(x, e)] := by simp
      rw [hgroups] at hdiffer hagain
      have he' := (retained_again_iff hdiffer hx (by simp)).1 hagain
      rw [marks_append_cons hmem hy, marks_cons_deleted] at he'
      have hle := hu.extras_le
      have hhalf := hkept.1
      exact .beside hp hu hmem hy hnew hx (by omega) (by omega) (by omega) he'

/-- The elements of a group are marked. -/
theorem deletable_of_marked (hdiffer : Differ (p ++ (y, g + 1) :: post))
    (hmem : deleted ∉ heads p) (hy : y ≠ deleted) (hnew : y ∉ heads p)
    (hkept : kept (flat p ++ y :: (List.replicate (g + 1) deleted ++ flat post)) =
      heads (p ++ (y, g + 1) :: post) ++ z)
    (hdropped : z.length =
      dropped (flat p ++ y :: (List.replicate (g + 1) deleted ++ flat post)))
    (hagain : retained (heads (p ++ (y, g + 1) :: post) ++ (z ++ List.replicate m deleted)) =
      (p ++ (y, g + 1) :: post).length) : Deletable (p ++ (y, g + 1) :: post) := by
  have hmem' : deleted ∉ flat p := fun h => hmem (mem_flat_iff.1 h)
  obtain ⟨hstay, hcount⟩ := kept_append_cons hmem' hy (List.replicate (g + 1) deleted ++ flat post)
  rw [hstay, heads_append, heads_cons, List.append_assoc, List.cons_append] at hkept
  rw [hcount] at hdropped
  obtain ⟨hzero, hkept⟩ := flat_eq_heads hdiffer hkept
  have hp := tame_of_zero hzero hmem
  cases post with
  | nil => exact .last hp hmem hy hnew
  | cons w post =>
      by_cases hw : w.1 = deleted
      · obtain ⟨w, f⟩ := w
        obtain rfl : w = deleted := hw
        exact deletable_of_beside hdiffer hp hmem hy hnew hkept hdropped hagain
      · exact deletable_of_apart hdiffer hp hmem hy hnew hw hkept hdropped hagain

/-- Where `deleteDups` is right, the groups are as `Deletable` says. -/
theorem RetainsGroups.deletable (h : RetainsGroups a) : Deletable (groups a) := by
  obtain ⟨z, m, hkept, hdropped, hagain⟩ := h.exists_further
  have hflat := flat_groups a
  have hdiffer := differ_groups a
  generalize groups a = gs at *
  subst hflat
  by_cases hne : gs = []
  · exact hne ▸ .nil
  rcases markFrom_cases hdiffer [] with hsame | ⟨p, y, g, post, rfl, hmem, hy, hnew, hmarked⟩
  · rw [hsame] at hkept hdropped
    exact deletable_of_longerLast hdiffer
      ((kept_flat_iff hdiffer hne 0 z).1 ⟨hkept, hdropped.trans (Nat.zero_add _).symm⟩) hagain
  · rw [hmarked] at hkept hdropped
    exact deletable_of_marked hdiffer hmem hy (by simpa using hnew) hkept hdropped hagain

end Necessary

/-! ## The condition is sufficient -/

section Sufficient

variable {gs p q post u : StringGroups} {x y : StdString} {e g f : Nat}

/-- What `deleteDups` has to leave of groups, and to return for what it leaves. -/
def LeavesHeads (gs : StringGroups) : Prop :=
  ∃ z, kept (markFrom [] (flat gs)) = heads gs ++ z ∧ z.length = dropped (markFrom [] (flat gs)) ∧
    ∀ m, retained (heads gs ++ (z ++ List.replicate m deleted)) = gs.length

/-- The elements of the groups, where only the last one can have duplicates. -/
theorem flat_eq_heads_append (hq : Tame q) (hmem : deleted ∉ heads q) (x : StdString) (e : Nat) :
    flat (q ++ [(x, e)]) = heads q ++ x :: List.replicate e x := by
  rw [flat_append, (hq.flat_eq hmem).1]
  simp

/-- Without marks, a second call sees the marks at the end only. -/
theorem retained_of_marks (hdiffer : Differ gs) (hmem : deleted ∉ heads gs) (k m : Nat) :
    retained (heads gs ++ (List.replicate k deleted ++ List.replicate m deleted)) = gs.length := by
  rw [← List.replicate_add, retained_of_not_mem hdiffer hmem, length_heads]

/-- Nothing is marked where the marks are in front of the first duplicates. -/
theorem markFrom_flat_of_tame (hdiffer : Differ (q ++ [(x, e)])) (hq : Tame q) (hx : x ≠ deleted)
    (he : deleted ∉ heads q → e = 0) :
    markFrom [] (flat (q ++ [(x, e)])) = flat (q ++ [(x, e)]) := by
  by_cases hmem : deleted ∈ heads q
  · obtain ⟨before, after, hsplit, hbefore⟩ := List.eq_append_cons_of_mem hmem
    obtain ⟨q, q', rfl, rfl, hq'⟩ := List.map_eq_append_iff.1 hsplit
    obtain ⟨⟨_, f⟩, q', rfl, rfl, rfl⟩ := List.map_eq_cons_iff.1 hq'
    have hflat : flat (q ++ (deleted, f) :: q' ++ [(x, e)]) =
        heads q ++ (List.replicate (f + 1) deleted ++ flat (q' ++ [(x, e)])) := by
      rw [List.append_assoc, flat_append, ((tame_append.1 hq).1.flat_eq hbefore).1]
      rfl
    have hchain : (heads q).IsChain (· ≠ ·) := by
      rw [Differ, heads_append, heads_append] at hdiffer
      exact hdiffer.left_of_append.left_of_append
    rw [hflat]
    exact markFrom_of_isChain hchain hbefore (f + 1) _ fun h => absurd h (Nat.succ_ne_zero f)
  · obtain rfl := he hmem
    have hflat := flat_eq_heads_append hq hmem x 0
    have hsame := markFrom_of_isChain hdiffer (by simp [hmem, hx.symm]) 0 [] fun _ => rfl
    rw [hflat]
    simpa using hsame

theorem leavesHeads_threefold (hdiffer : Differ (q ++ [(x, e)])) (hq : Tame q) (hx : x ≠ deleted)
    (hextras : extras q = 2 * marks q) (he : e = 2 * marks q) : LeavesHeads (q ++ [(x, e)]) := by
  have hsame := markFrom_flat_of_tame hdiffer hq hx fun hmem => by rw [he, marks_eq_zero hmem]
  obtain ⟨hkept, hdropped⟩ := (kept_flat_iff hdiffer (by simp) 0 (List.replicate e x)).2
    ⟨q, x, e, rfl, hq, hx, rfl, by omega⟩
  refine ⟨List.replicate e x, by rw [hsame]; exact hkept, ?_, fun m => ?_⟩
  · rw [hsame, hdropped, Nat.zero_add]
  · by_cases hmem : deleted ∈ heads q
    · exact (retained_again_iff hdiffer hx hmem).2 he
    · obtain rfl : e = 0 := by rw [he, marks_eq_zero hmem]
      exact retained_of_marks hdiffer (by simp [hmem, hx.symm]) 0 m

/-- The further elements at the end are marked. -/
theorem markFrom_last (hnew : x ∉ heads q) (hx : x ≠ deleted) (e : Nat) :
    markFrom (heads q) (x :: List.replicate e x) = x :: List.replicate e deleted := by
  have hend : ([] : List StdString).head? ≠ some x := (Option.some_ne_none x).symm
  cases e with
  | zero =>
      rw [List.replicate_zero, markFrom, if_neg hx, if_pos (.inr hend)]
      rfl
  | succ e =>
      have h := markFrom_new hx hnew hend e
      rwa [List.append_nil, List.append_nil] at h

theorem leavesHeads_last (hdiffer : Differ (q ++ [(x, e)])) (hq : Tame q) (hmem : deleted ∉ heads q)
    (hx : x ≠ deleted) (hnew : x ∉ heads q) : LeavesHeads (q ++ [(x, e)]) := by
  have hchain : (heads q ++ [x]).IsChain (· ≠ ·) := by simpa [Differ] using hdiffer
  have hmarked : markFrom [] (flat (q ++ [(x, e)])) =
      heads q ++ x :: List.replicate e deleted := by
    rw [flat_eq_heads_append hq hmem, markFrom_append hmem (x :: List.replicate e x) hchain,
      List.nil_append, markFrom_last hnew hx]
  obtain ⟨hkept, hdropped⟩ := kept_append_cons hmem hx (List.replicate e deleted)
  obtain ⟨hstay, hmoved⟩ := kept_replicate e
  refine ⟨List.replicate (e / 2) deleted, ?_, ?_, fun m => ?_⟩
  · rw [hmarked, hkept, hstay]
    simp
  · rw [hmarked, hdropped, hmoved, List.length_replicate]
  · exact retained_of_marks hdiffer (by simp [hmem, hx.symm]) _ m

/-- The further elements of the first group with duplicates are marked. -/
theorem markFrom_marked (hdiffer : Differ (p ++ (y, g + 1) :: post)) (hp : Tame p)
    (hmem : deleted ∉ heads p) (hy : y ≠ deleted) (hnew : y ∉ heads p) :
    markFrom [] (flat (p ++ (y, g + 1) :: post)) =
      heads p ++ y :: (List.replicate (g + 1) deleted ++ flat post) := by
  have hchain : (heads p ++ [y]).IsChain (· ≠ ·) := by
    have h : (heads p ++ [y] ++ heads post).IsChain (· ≠ ·) := by simpa [Differ] using hdiffer
    exact h.left_of_append
  rw [flat_append, (hp.flat_eq hmem).1, markFrom_append hmem (flat ((y, g + 1) :: post)) hchain,
    List.nil_append, flat_cons, markFrom_new hy hnew hdiffer.of_append.head?_ne]

/-- A run of `n` marks stands behind the marked group: every second one stays, and the last group
is longer by the other ones. -/
theorem leavesHeads_of_marked {n : Nat}
    (hmarked : markFrom [] (flat gs) =
      heads p ++ y :: (List.replicate n deleted ++ flat (u ++ [(x, e)])))
    (hheads : heads gs = heads p ++ y :: (List.replicate (n / 2) deleted ++ heads (u ++ [(x, e)])))
    (hdiffer : Differ (u ++ [(x, e)])) (hfirst : (heads (u ++ [(x, e)])).head? ≠ some deleted)
    (hmem : deleted ∉ heads p) (hy : y ≠ deleted) (hu : Tame u) (hx : x ≠ deleted)
    (he : e = (n + 1) / 2 + extras u)
    (hagain : ∀ m, retained (heads gs ++ (List.replicate e x ++ List.replicate m deleted)) =
      gs.length) : LeavesHeads gs := by
  obtain ⟨hkept, hdropped⟩ := (kept_flat_iff hdiffer (by simp) ((n + 1) / 2)
    (List.replicate e x)).2 ⟨u, x, e, rfl, hu, hx, rfl, he⟩
  obtain ⟨w, post, hpost⟩ := List.exists_cons_of_ne_nil
    (show u ++ [(x, e)] ≠ [] from List.append_ne_nil_of_right_ne_nil u (List.cons_ne_nil _ _))
  have hw : w.1 ≠ deleted := by
    rw [hpost] at hfirst
    exact fun h => hfirst (congrArg some h)
  obtain ⟨hblock, hmoved⟩ := kept_marks_flat hw n post
  rw [← hpost] at hblock hmoved
  obtain ⟨hstay, hcount⟩ := kept_append_cons hmem hy
    (List.replicate n deleted ++ flat (u ++ [(x, e)]))
  refine ⟨List.replicate e x, ?_, ?_, hagain⟩
  · rw [hmarked, hstay, hblock, hkept, hheads]
    simp only [List.append_assoc, List.cons_append]
  · rw [hmarked, hcount, hmoved, hdropped]

/-- One further element is marked, and no marks are behind it. -/
theorem leavesHeads_of_one (hdiffer : Differ (p ++ (y, 1) :: (u ++ [(x, e)]))) (hp : Tame p)
    (hu : Tame u) (hmem : deleted ∉ heads p) (hfirst : (heads u).head? ≠ some deleted)
    (hy : y ≠ deleted) (hnew : y ∉ heads p) (hx : x ≠ deleted) (he : e = 1 + extras u)
    (hagain : ∀ m, retained (heads (p ++ (y, 1) :: (u ++ [(x, e)])) ++
      (List.replicate e x ++ List.replicate m deleted)) = (p ++ (y, 1) :: (u ++ [(x, e)])).length) :
    LeavesHeads (p ++ (y, 1) :: (u ++ [(x, e)])) := by
  refine leavesHeads_of_marked (n := 1) (markFrom_marked hdiffer hp hmem hy hnew) ?_
    hdiffer.of_append.tail ?_ hmem hy hu hx he hagain
  · rw [heads_append, heads_cons]
    rfl
  · cases u with
    | nil => exact fun h => hx (Option.some.inj h)
    | cons w u => exact hfirst

theorem leavesHeads_two (hdiffer : Differ (p ++ (y, 1) :: (u ++ [(x, 1)]))) (hp : Tame p)
    (hu : Tame u) (hmem : deleted ∉ heads p) (hmemu : deleted ∉ heads u) (hy : y ≠ deleted)
    (hynew : y ∉ heads p) (hx : x ≠ deleted) (hxnew : x ∉ heads p ++ y :: heads u) :
    LeavesHeads (p ++ (y, 1) :: (u ++ [(x, 1)])) := by
  have hextras := (hu.flat_eq hmemu).2
  refine leavesHeads_of_one hdiffer hp hu hmem (fun h => hmemu (List.mem_of_head? h)) hy hynew hx
    (by omega) fun m => ?_
  have hchain : (heads p ++ y :: heads u ++ [x]).IsChain (· ≠ ·) := by
    simpa [Differ] using hdiffer
  have hmem' : deleted ∉ heads p ++ y :: heads u ++ [x] := by
    simp [hmem, hmemu, hy.symm, hx.symm]
  have htwo := retained_of_two hchain hmem' m
  rw [if_neg hxnew] at htwo
  simpa using htwo

theorem leavesHeads_apart (hdiffer : Differ (p ++ (y, 1) :: (u ++ [(x, e)]))) (hp : Tame p)
    (hu : Tame u) (hmem : deleted ∉ heads p) (hmemu : deleted ∈ heads u)
    (hfirst : (heads u).head? ≠ some deleted) (hy : y ≠ deleted) (hynew : y ∉ heads p)
    (hx : x ≠ deleted) (hextras : extras u + 1 = 2 * marks u) (he : e = 2 * marks u) :
    LeavesHeads (p ++ (y, 1) :: (u ++ [(x, e)])) := by
  refine leavesHeads_of_one hdiffer hp hu hmem hfirst hy hynew hx (by omega) fun m => ?_
  have hgroups : p ++ (y, 1) :: (u ++ [(x, e)]) = (p ++ (y, 1) :: u) ++ [(x, e)] := by simp
  rw [hgroups] at hdiffer ⊢
  refine (retained_again_iff hdiffer hx (by simp [hmemu])).2 ?_
  rw [marks_append_cons hmem hy, he]

theorem leavesHeads_beside
    (hdiffer : Differ (p ++ (y, g) :: (deleted, f) :: (u ++ [(x, e)]))) (hp : Tame p)
    (hu : Tame u) (hmem : deleted ∉ heads p) (hy : y ≠ deleted) (hynew : y ∉ heads p)
    (hx : x ≠ deleted) (hg : 1 ≤ g) (hgf : g + f = 2) (hextras : extras u = 2 * marks u)
    (he : e = 2 * (marks u + 1)) :
    LeavesHeads (p ++ (y, g) :: (deleted, f) :: (u ++ [(x, e)])) := by
  obtain ⟨g, rfl⟩ := Nat.exists_eq_add_of_le' hg
  have hmarked := markFrom_marked hdiffer hp hmem hy hynew
  rw [replicate_append_flat, show g + 1 + (f + 1) = 3 by omega] at hmarked
  have hbehind : Differ ((deleted, f) :: (u ++ [(x, e)])) := hdiffer.of_append.tail
  refine leavesHeads_of_marked (n := 3) hmarked ?_ hbehind.tail ?_ hmem hy hu hx (by omega)
    fun m => ?_
  · rw [heads_append, heads_cons, heads_cons]
    rfl
  · cases u with
    | nil => exact fun h => hx (Option.some.inj h)
    | cons w u => exact fun h => (List.isChain_cons_cons.1 hbehind).1 (Option.some.inj h).symm
  · have hgroups : p ++ (y, g + 1) :: (deleted, f) :: (u ++ [(x, e)]) =
        (p ++ (y, g + 1) :: (deleted, f) :: u) ++ [(x, e)] := by simp
    rw [hgroups] at hdiffer ⊢
    refine (retained_again_iff hdiffer hx (by simp)).2 ?_
    rw [marks_append_cons hmem hy, marks_cons_deleted, he]

/-- The groups that `Deletable` describes are left as they should be. -/
theorem Deletable.leavesHeads (h : Deletable gs) (hdiffer : Differ gs) : LeavesHeads gs := by
  cases h with
  | nil => exact ⟨[], rfl, rfl, fun m => retained_of_marks hdiffer List.not_mem_nil 0 m⟩
  | threefold hq hx hextras he => exact leavesHeads_threefold hdiffer hq hx hextras he
  | last hq hmem hx hnew => exact leavesHeads_last hdiffer hq hmem hx hnew
  | two hp hu hmemp hmemu hy hynew hx hxnew =>
      exact leavesHeads_two hdiffer hp hu hmemp hmemu hy hynew hx hxnew
  | apart hp hu hmemp hmemu hfirst hy hynew hx hextras he =>
      exact leavesHeads_apart hdiffer hp hu hmemp hmemu hfirst hy hynew hx hextras he
  | beside hp hu hmemp hy hynew hx hg hgf hextras he =>
      exact leavesHeads_beside hdiffer hp hu hmemp hy hynew hx hg hgf hextras he

end Sufficient

/-- `deleteDups` is right exactly for the arrays whose groups are as `Deletable` says. -/
theorem deleteDups_right_iff (a : List StdString) : RetainsGroups a ↔ Deletable (groups a) := by
  refine ⟨RetainsGroups.deletable, fun h => ?_⟩
  obtain ⟨z, hkept, hdropped, hagain⟩ := h.leavesHeads (differ_groups a)
  rw [flat_groups] at hkept hdropped
  exact retainsGroups_of hkept hdropped hagain

/-- For three elements of one string and two of another `deleteDups` returns three. -/
theorem deleteDups_three_of_two :
    ¬ RetainsGroups [chars ['d'], chars ['d'], chars ['d'], chars ['t'], chars ['t']] := by
  rintro ⟨r, b, hrun, -, hr, -⟩
  rw [deleteDups_eq] at hrun
  have hresult :
      retained [chars ['d'], chars ['d'], chars ['d'], chars ['t'], chars ['t']] = 3 := by
    decide
  have hcount := (Prod.mk.inj (Option.some.inj hrun)).1.symm.trans hresult
  have hgroups :
      (groups [chars ['d'], chars ['d'], chars ['d'], chars ['t'], chars ['t']]).length = 2 := by
    decide
  rw [hr, hgroups] at hcount
  exact absurd hcount (by decide)

end Coursework.StringArrays
