import Coursework.OilField.Leaving
import Coursework.Search.Marking

/-!
# The search finds an exit that is near

What `find_path` does in any maze, also in one with an exit where it looks. A call that has not
found anything works on the first maze with the squares of its path marked, so a walk that does not
come back (`Reaches.cases_first`) is followed by the calls (`ExitNear.iff_directions`). When the
exit has been found the loops on the way back still mark squares, but every call they make returns
at once.
Vocabulary and scope: `Coursework.OilField.ExitPath`.
-/

namespace Coursework.OilField

open Maze Search

/-- An array of the maze's shape. -/
structure Shaped (maze : List (List Char)) : Prop where
  rows : maze.length = 63
  columns : ∀ row ∈ maze, row.length = 60

/-- A square with an exit where `find_path` looks. -/
def IsExit (maze : List (List Char)) (e : Int × Int) : Prop :=
  (e.1 < 60 ∧ e.2 < 60) ∧ cell maze e.1 e.2 = some 'Q'

/-- An exit is next to the square `q`, or to one that can be reached from it through these
squares. -/
def NearThrough (maze : List (List Char)) (opened : Set (Int × Int)) (q : Int × Int) : Prop :=
  ∃ r e, Reaches Adjacent opened q r ∧ Adjacent r e ∧ IsExit maze e

/-- An exit is near a square, through the clear squares that `find_path` may enter. -/
def ExitNear (maze : List (List Char)) (q : Int × Int) : Prop :=
  NearThrough maze {r | openSquares maze r = true} q

/-- A square has the exit, or it is clear and its search finds one. -/
def ExitBy (maze : List (List Char)) (near : Int × Int → Prop) (r : Int × Int) : Prop :=
  IsExit maze r ∨ openSquares maze r = true ∧ near r

/-- What a search leaves that started without having found anything. -/
structure Finds (maze : List (List Char)) (near : Prop)
    (result : List (List Char) × List Char × Bool) : Prop where
  shaped : Shaped result.1
  kept : result.2.2 = false → result.1 = maze
  found : result.2.2 = true ↔ near

variable {maze mid : List (List Char)} {q r : Int × Int}

/-! ## Squares -/

/-- The square that an entry of `direction` leads to. -/
def stepTo (q : Int × Int) (d : Int × Int × Char) : Int × Int :=
  (q.1 + d.1, q.2 + d.2.1)

/-- The four directions lead to the squares that share a side. -/
theorem adjacent_iff : Adjacent q r ↔ ∃ d ∈ directions, stepTo q d = r := by
  obtain ⟨x, y⟩ := r
  simp only [Adjacent, directions, stepTo, List.mem_cons, List.not_mem_nil, or_false,
    exists_eq_or_imp, exists_eq_left, Prod.mk.injEq]
  omega

/-- The search enters squares only within its bounds. -/
theorem bounds_of_openSquares (h : openSquares maze r = true) :
    0 ≤ r.1 ∧ 0 ≤ r.2 ∧ r.1 < 60 ∧ r.2 < 60 :=
  have hopen := of_decide_eq_true h
  ⟨hopen.1, hopen.2.1, hopen.2.2.1, hopen.2.2.2.1⟩

/-- So are the exits that it looks at. -/
theorem IsExit.bounds (h : IsExit maze r) : 0 ≤ r.1 ∧ 0 ≤ r.2 ∧ r.1 < 60 ∧ r.2 < 60 := by
  obtain ⟨hbounds, hcell⟩ := h
  obtain ⟨hnonneg, -⟩ := row_of_cell hcell
  omega

/-- An assignment to a cell keeps the shape. -/
theorem Shaped.set (h : Shaped maze) (hshape : mid.map List.length = maze.map List.length) :
    Shaped mid where
  rows := (rectangle_of_shape hshape h.rows h.columns).1
  columns := (rectangle_of_shape hshape h.rows h.columns).2

/-- A square within the bounds can be read. -/
theorem Shaped.exists_cell (h : Shaped maze) {x y : Int}
    (hbounds : 0 ≤ x ∧ 0 ≤ y ∧ x < 60 ∧ y < 60) : ∃ ch, cell maze x y = some ch :=
  Maze.exists_cell h.rows h.columns (by omega) (by omega)

/-- The same squares are exits when a clear one is marked. -/
theorem isExit_mark (hr : cell maze r.1 r.2 = some '.')
    (hcells : ∀ x y, cell mid x y = if (x, y) = r then some 'V' else cell maze x y)
    (e : Int × Int) : IsExit mid e ↔ IsExit maze e := by
  unfold IsExit
  rw [hcells]
  by_cases her : e = r
  · subst her
    simp [hr]
  · rw [if_neg her]

/-- An exit is near if one of the squares around has it, or is clear and has it near without the
way back. -/
theorem ExitNear.iff_directions : ExitNear maze q ↔ ∃ d ∈ directions,
    ExitBy maze (fun r => NearThrough maze ({s | openSquares maze s = true} \ {r}) r)
      (stepTo q d) := by
  constructor
  · intro h
    obtain ⟨r, e, hwalk, hadj, hexit⟩ := h
    rcases hwalk.cases_first with rfl | ⟨c, hstep, hopen, hrest⟩
    · obtain ⟨d, hd, rfl⟩ := adjacent_iff.1 hadj
      exact ⟨d, hd, .inl hexit⟩
    · obtain ⟨d, hd, rfl⟩ := adjacent_iff.1 hstep
      exact ⟨d, hd, .inr ⟨hopen, r, e, hrest, hadj, hexit⟩⟩
  · intro h
    obtain ⟨d, hd, hcase⟩ := h
    have hadj : Adjacent q (stepTo q d) := adjacent_iff.2 ⟨d, hd, rfl⟩
    rcases hcase with hexit | ⟨hopen, r, e, hrest, hnext, hexit⟩
    · exact ⟨q, stepTo q d, .refl, hadj, hexit⟩
    · exact ⟨r, e, .head ⟨hadj, hopen⟩ (hrest.mono Set.sdiff_subset), hnext, hexit⟩

/-! ## The search -/

variable {near here : Prop} {result : List (List Char) × List Char × Bool}

/-- A direction that leads nowhere leaves it to the others. -/
theorem Finds.skip (h : Finds maze near result) (hnot : ¬ here) :
    Finds maze (here ∨ near) result :=
  ⟨h.shaped, h.kept, by rw [h.found, or_iff_right hnot]⟩

/-- When an exit was found nothing is said about the maze. -/
theorem Finds.of_found (hshaped : Shaped result.1) (hfound : result.2.2 = true) (hnear : near) :
    Finds maze near result where
  shaped := hshaped
  kept := by
    intro hnot
    rw [hfound] at hnot
    cases hnot
  found := iff_of_true hfound hnear

section Loop

variable {search : List (List Char) → Int → Int → List Char → Bool →
  Option (List (List Char) × List Char × Bool)}

/-- When the exit has been found, the loop marks the clear squares that are left. -/
theorem tryDirections_found (h : Shaped maze)
    (hfound : ∀ mid x y path, search mid x y path true = some (mid, path, true))
    (ds : List (Int × Int × Char)) (path : List Char) :
    ∃ result, tryDirections search q.1 q.2 60 60 ds maze path true = some result ∧
      Shaped result.1 ∧ result.2.2 = true := by
  induction ds generalizing maze path with
  | nil => exact ⟨(maze, path, true), rfl, h, rfl⟩
  | cons d ds ih =>
      obtain ⟨dx, dy, letter⟩ := d
      unfold tryDirections
      simp only
      split
      · next hbounds =>
        obtain ⟨ch, hch⟩ := h.exists_cell hbounds
        by_cases hdot : ch = '.'
        · obtain ⟨mid, hset, hshape, -⟩ := setCell_eq 'V' hch
          simp only [hch, hset, hfound, Option.bind_eq_bind, Option.bind_some, if_pos hdot, takeUp,
            if_true]
          exact ih (h.set hshape) _
        · simp only [hch, Option.bind_eq_bind, Option.bind_some, if_neg hdot]
          split
          · exact ih h _
          · exact ih h _
      · exact ih h _

/-- The loop finds an exit if one of the squares around has it or is clear and its search finds it,
by induction on the directions that are left. -/
theorem tryDirections_finds (h : Shaped maze) (near : Int × Int → Prop)
    (hsearch : ∀ r, openSquares maze r = true → ∀ mid, Shaped mid →
      (∀ x y, cell mid x y = if (x, y) = r then some 'V' else cell maze x y) → ∀ path,
        ∃ result, search mid r.1 r.2 path false = some result ∧ Finds mid (near r) result)
    (hfound : ∀ mid x y path, search mid x y path true = some (mid, path, true))
    (ds : List (Int × Int × Char)) (path : List Char) :
    ∃ result, tryDirections search q.1 q.2 60 60 ds maze path false = some result ∧
      Finds maze (∃ d ∈ ds, ExitBy maze near (stepTo q d)) result := by
  induction ds generalizing path with
  | nil => exact ⟨(maze, path, false), rfl, h, fun _ => rfl, by simp⟩
  | cons d ds ih =>
      simp only [List.exists_mem_cons_iff]
      have hskip : ¬ ExitBy maze near (stepTo q d) → ∀ path,
          ∃ result, tryDirections search q.1 q.2 60 60 ds maze path false = some result ∧
            Finds maze (ExitBy maze near (stepTo q d) ∨
              ∃ d ∈ ds, ExitBy maze near (stepTo q d)) result := by
        intro hnot path
        obtain ⟨result, hrun, hfinds⟩ := ih path
        exact ⟨result, hrun, hfinds.skip hnot⟩
      -- when it is found here, the others do not matter
      have hhere : ExitBy maze near (stepTo q d) → ∀ mid, Shaped mid → ∀ path,
          ∃ result, tryDirections search q.1 q.2 60 60 ds mid path true = some result ∧
            Finds maze (ExitBy maze near (stepTo q d) ∨
              ∃ d ∈ ds, ExitBy maze near (stepTo q d)) result := by
        intro hyes mid hmid path
        obtain ⟨result, hrun, hshaped, hresult⟩ := tryDirections_found hmid hfound ds path
        exact ⟨result, hrun, .of_found hshaped hresult (.inl hyes)⟩
      obtain ⟨dx, dy, letter⟩ := d
      unfold tryDirections
      simp only
      split
      · next hbounds =>
        obtain ⟨ch, hch⟩ := h.exists_cell hbounds
        obtain ⟨h0, h0', hx, hy⟩ := hbounds
        by_cases hdot : ch = '.'
        · subst hdot
          have hopen : openSquares maze (q.1 + dx, q.2 + dy) = true := by
            simp [openSquares, h0, h0', hx, hy, hch]
          obtain ⟨mid, hset, hshape, hcells⟩ := setCell_eq 'V' hch
          obtain ⟨⟨after, path', found⟩, hrun, hfinds⟩ :=
            hsearch _ hopen mid (h.set hshape) hcells (path ++ [letter])
          simp only [hch, hset, hrun, Option.bind_eq_bind, Option.bind_some, if_true]
          cases found with
          | false =>
              -- the crumb is taken up again
              obtain rfl : after = mid := hfinds.kept rfl
              simp only [takeUp, Bool.false_eq_true, if_false, setCell_undo hch hset,
                Option.bind_some]
              refine hskip (fun hcase => ?_) _
              rcases hcase with hexit | ⟨-, hnear⟩
              · exact absurd (hch.symm.trans hexit.2) (by decide)
              · cases hfinds.found.2 hnear
          | true =>
              simp only [takeUp, if_true, Option.bind_some]
              exact hhere (.inr ⟨hopen, hfinds.found.1 rfl⟩) after hfinds.shaped _
        · simp only [hch, Option.bind_eq_bind, Option.bind_some, if_neg hdot]
          split
          · next hexit =>
            subst hexit
            exact hhere (.inl ⟨⟨hx, hy⟩, hch⟩) maze h _
          · next hexit =>
            refine hskip (fun hcase => ?_) _
            rcases hcase with hcase | ⟨hopen, -⟩
            · exact hexit (Option.some.inj (hch.symm.trans hcase.2))
            · exact hdot (Option.some.inj (hch.symm.trans (of_decide_eq_true hopen).2.2.2.2))
      · next hbounds =>
        refine hskip (fun hcase => hbounds ?_) _
        exact hcase.elim IsExit.bounds fun hopen => bounds_of_openSquares hopen.1

end Loop

/-- A search finds an exit that is near, by induction on the number of squares that it may
enter. One more call than there are such squares returns at once when the exit has been found. -/
theorem findPath_finds (q : Int × Int) (fuel : Nat) (h : Shaped maze)
    (hfuel : {r | openSquares maze r = true}.ncard + 1 < fuel) (path : List Char) :
    ∃ result, findPath fuel maze q.1 q.2 path false 60 60 = some result ∧
      Finds maze (ExitNear maze q) result := by
  induction fuel generalizing maze q path with
  | zero => exact absurd hfuel (Nat.not_lt_zero _)
  | succ fuel ih =>
      unfold findPath
      simp only [Bool.false_eq_true, if_false]
      rw [ExitNear.iff_directions]
      refine tryDirections_finds h
        (fun r => NearThrough maze ({s | openSquares maze s = true} \ {r}) r) ?_ ?_ directions path
      · intro r hopen mid hshaped hcells path
        have hlt := ncard_mark_lt hopen hcells
        obtain ⟨result, hrun, hfinds⟩ := ih r hshaped (by omega) path
        refine ⟨result, hrun, hfinds.shaped, hfinds.kept, hfinds.found.trans ?_⟩
        have hsquares : {s | openSquares mid s = true} = {s | openSquares maze s = true} \ {r} := by
          ext s
          rw [Set.mem_ofPred_eq, openSquares_mark hcells, Set.mem_sdiff, Set.mem_ofPred_eq,
            Set.mem_singleton_iff, Bool.and_eq_true, decide_eq_true_iff]
          exact and_comm
        have hexits := isExit_mark (of_decide_eq_true hopen).2.2.2.2 hcells
        unfold ExitNear NearThrough
        rw [hsquares]
        simp only [hexits]
      · intro mid x y path
        obtain ⟨fuel, rfl⟩ := Nat.exists_eq_add_one_of_ne_zero (show fuel ≠ 0 by omega)
        unfold findPath
        rfl

/-- In any maze `find_path` returns. It has found an exit if and only if there is one next to
the start or to a square that can be reached through clear squares, and otherwise the maze is as it
was. -/
theorem findPath_correct (h : Shaped maze) (x y : Int) (path : List Char) :
    ∃ maze' path' found, findPath (60 * 60 + 2) maze x y path false 60 60 =
        some (maze', path', found) ∧
      (found = true ↔ ∃ r e, Reaches Adjacent {s | openSquares maze s = true} (x, y) r ∧
        Adjacent r e ∧ (e.1 < 60 ∧ e.2 < 60) ∧ cell maze e.1 e.2 = some 'Q') ∧
      (found = false → maze' = maze) := by
  have hcard := (openSquares_finite maze).2
  obtain ⟨⟨maze', path', found⟩, hrun, hfinds⟩ :=
    findPath_finds (x, y) (60 * 60 + 2) h (by omega) path
  exact ⟨maze', path', found, hrun, hfinds.found, hfinds.kept⟩

/-- A maze of clear squares with an exit in a corner. -/
def cornerMaze : List (List Char) :=
  List.replicate 59 (List.replicate 60 '.') ++
    (List.replicate 59 '.' ++ ['Q']) :: List.replicate 3 (List.replicate 60 '.')

/-- From the other corner the search returns. -/
theorem cornerMaze_found :
    ∃ maze' path' found, findPath (60 * 60 + 2) cornerMaze 0 0 [] false 60 60 =
        some (maze', path', found) ∧
      (found = true ↔ ∃ r e, Reaches Adjacent {s | openSquares cornerMaze s = true} (0, 0) r ∧
        Adjacent r e ∧ (e.1 < 60 ∧ e.2 < 60) ∧ cell cornerMaze e.1 e.2 = some 'Q') ∧
      (found = false → maze' = cornerMaze) :=
  findPath_correct ⟨by simp [cornerMaze], by simp [cornerMaze]⟩ 0 0 []

end Coursework.OilField
