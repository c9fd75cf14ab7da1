import Coursework.Maze.Program
import Coursework.Search.Marking
import Mathlib.Order.Interval.Finset.Basic
import Mathlib.Data.Int.Interval
import Mathlib.Tactic.IntervalCases

/-!
# The maze search finds the end

A call of `canWeFinish` is a search that marks (`Coursework.Search.Marking`): the open vertices are
the cells with a `'.'`. The descents into the cells around are followed by induction on the cells
that are still to be tried, and calls by induction on the number of open cells.
Vocabulary and scope: `Coursework.Maze.Program`.
-/

namespace Coursework.Maze

open Search

/-- The cells with a `'.'`. -/
def openCells (maze : List (List Char)) : Set (Int × Int) :=
  {p | cell maze p.1 p.2 = some '.'}

/-- Cells that share a side. -/
def Adjacent (p q : Int × Int) : Prop :=
  q ∈ [(p.1 - 1, p.2), (p.1 + 1, p.2), (p.1, p.2 + 1), (p.1, p.2 - 1)]

/-- Cells that are not on the border. -/
def Interior (nRows nCols : Nat) (p : Int × Int) : Prop :=
  0 < p.1 ∧ p.1 < nRows - 1 ∧ 0 < p.2 ∧ p.2 < nCols - 1

/-- A rectangular maze without a `'.'` on its border. -/
structure Walled (maze : List (List Char)) (nRows nCols : Nat) : Prop where
  rows : maze.length = nRows
  columns : ∀ row ∈ maze, row.length = nCols
  border : ∀ p ∈ openCells maze, p.1 ≠ 0 ∧ p.1 ≠ nRows - 1 ∧ p.2 ≠ 0 ∧ p.2 ≠ nCols - 1

/-- A maze in which crumbs were dropped at `v` and at open cells. -/
structure Crumbs (v : Int × Int) (maze maze' : List (List Char)) : Prop where
  shape : maze'.map List.length = maze.map List.length
  start : cell maze' v.1 v.2 = some '#'
  others : ∀ p, p ≠ v → cell maze' p.1 p.2 = cell maze p.1 p.2 ∨
    p ∈ openCells maze ∧ cell maze' p.1 p.2 = some '#'

/-- What a call from `v` returns and leaves. -/
structure Searched (goal v : Int × Int) (maze : List (List Char))
    (result : Bool × List (List Char)) : Prop where
  crumbs : Crumbs v maze result.2
  marks : Marks Adjacent v (openCells maze) (openCells result.2)
  found : result.1 = true → Reaches Adjacent (openCells maze) v goal
  exhausts : result.1 = false → Exhausts Adjacent goal v (openCells maze) (openCells result.2)

variable {maze maze' mid after : List (List Char)} {nRows nCols : Nat} {goal v b : Int × Int}

/-! ## Cells -/

/-- A cell of the array can be read. -/
theorem exists_cell (hrows : maze.length = nRows) (hcolumns : ∀ row ∈ maze, row.length = nCols)
    {r c : Int} (hr : 0 ≤ r ∧ r < nRows) (hc : 0 ≤ c ∧ c < nCols) :
    ∃ ch, cell maze r c = some ch := by
  obtain ⟨i, rfl⟩ := Int.eq_ofNat_of_zero_le hr.1
  obtain ⟨j, rfl⟩ := Int.eq_ofNat_of_zero_le hc.1
  have hi : i < maze.length := by
    rw [hrows]
    omega
  have hj : j < maze[i].length := by
    rw [hcolumns _ (List.getElem_mem hi)]
    omega
  have hnonneg : ¬ ((i : Int) < 0 ∨ (j : Int) < 0) := by omega
  exact ⟨maze[i][j], by simp [cell, hnonneg, hi, hj]⟩

/-- A cell that can be read is in a row of the array. -/
theorem row_of_cell {r c : Int} {ch : Char} (hcell : cell maze r c = some ch) :
    ¬ (r < 0 ∨ c < 0) ∧ ∃ row, maze[r.toNat]? = some row ∧ row[c.toNat]? = some ch := by
  unfold cell at hcell
  split at hcell
  · cases hcell
  · next hnonneg => exact ⟨hnonneg, Option.bind_eq_some_iff.1 hcell⟩

/-- What is read was read inside the array. -/
theorem range_of_cell (hrows : maze.length = nRows) (hcolumns : ∀ row ∈ maze, row.length = nCols)
    {r c : Int} {ch : Char} (hcell : cell maze r c = some ch) :
    (0 ≤ r ∧ r < nRows) ∧ 0 ≤ c ∧ c < nCols := by
  obtain ⟨hnonneg, row, hrow, hget⟩ := row_of_cell hcell
  obtain ⟨hi, hget'⟩ := List.getElem?_eq_some_iff.1 hrow
  obtain ⟨hj, -⟩ := List.getElem?_eq_some_iff.1 hget
  rw [hrows] at hi
  rw [hcolumns row (hget' ▸ List.getElem_mem _)] at hj
  omega

/-- Open cells are not on the border. -/
theorem Walled.interior (h : Walled maze nRows nCols) {p : Int × Int} (hp : p ∈ openCells maze) :
    Interior nRows nCols p := by
  have hin := range_of_cell h.rows h.columns hp
  have hborder := h.border p hp
  unfold Interior
  omega

/-- There are finitely many open cells. -/
theorem Walled.finite (h : Walled maze nRows nCols) : (openCells maze).Finite := by
  refine (Set.finite_Icc ((0, 0) : Int × Int) (nRows, nCols)).subset fun p hp => ?_
  obtain ⟨h1, h2, h3, h4⟩ := h.interior hp
  rw [Set.mem_Icc, Prod.le_def, Prod.le_def]
  show (0 ≤ p.1 ∧ 0 ≤ p.2) ∧ p.1 ≤ nRows ∧ p.2 ≤ nCols
  omega

/-- An assignment to a cell keeps the lengths of the rows. -/
theorem map_length_set {i : Nat} {row : List Char} (hrow : maze[i]? = some row) (j : Nat)
    (ch : Char) : (maze.set i (row.set j ch)).map List.length = maze.map List.length := by
  obtain ⟨hi, rfl⟩ := List.getElem?_eq_some_iff.1 hrow
  rw [List.map_set, List.length_set, ← List.getElem_map List.length (h := by simpa using hi),
    List.set_getElem_self]

/-- Rows of the same lengths make a rectangle of the same size. -/
theorem rectangle_of_shape (hshape : maze'.map List.length = maze.map List.length)
    (hrows : maze.length = nRows) (hcolumns : ∀ row ∈ maze, row.length = nCols) :
    maze'.length = nRows ∧ ∀ row ∈ maze', row.length = nCols := by
  constructor
  · rw [← hrows, ← List.length_map List.length, hshape, List.length_map]
  · intro row hrow
    have hmem := List.mem_map_of_mem (f := List.length) hrow
    rw [hshape] at hmem
    obtain ⟨row', hrow', heq⟩ := List.mem_map.1 hmem
    rw [← heq, hcolumns row' hrow']

/-- What is read after an assignment to a cell of the array. -/
theorem cell_set (ch : Char) {r c : Int} {row : List Char} (hnonneg : ¬ (r < 0 ∨ c < 0))
    (hrow : maze[r.toNat]? = some row) (hj : c.toNat < row.length) (r' c' : Int) :
    cell (maze.set r.toNat (row.set c.toNat ch)) r' c' =
      if (r', c') = (r, c) then some ch else cell maze r' c' := by
  obtain ⟨hi, hget⟩ := List.getElem?_eq_some_iff.1 hrow
  unfold cell
  by_cases hneg : r' < 0 ∨ c' < 0
  · have hne : (r', c') ≠ (r, c) := by
      intro heq
      cases heq
      exact hnonneg hneg
    rw [if_pos hneg, if_neg hne, if_pos hneg]
  · rw [if_neg hneg]
    by_cases hrr : r'.toNat = r.toNat
    · have hr : r' = r := by omega
      subst hr
      by_cases hcc : c'.toNat = c.toNat
      · have hc : c' = c := by omega
        subst hc
        simp [hi, hj]
      -- another cell of the row
      · have hne : (r', c') ≠ (r', c) := by
          intro heq
          cases heq
          exact hcc rfl
        rw [if_neg hne, if_neg hneg]
        simp [hi, hget, Ne.symm hcc]
    -- another row
    · have hne : (r', c') ≠ (r, c) := by
        intro heq
        cases heq
        exact hrr rfl
      rw [if_neg hne, if_neg hneg]
      simp [Ne.symm hrr]

/-- An assignment to a cell of the array changes that cell only. -/
theorem setCell_eq (ch : Char) {old : Char} {r c : Int} (hcell : cell maze r c = some old) :
    ∃ maze', setCell maze r c ch = some maze' ∧
      maze'.map List.length = maze.map List.length ∧
      ∀ r' c', cell maze' r' c' = if (r', c') = (r, c) then some ch else cell maze r' c' := by
  obtain ⟨hnonneg, row, hrow, hget⟩ := row_of_cell hcell
  obtain ⟨hj, -⟩ := List.getElem?_eq_some_iff.1 hget
  exact ⟨maze.set r.toNat (row.set c.toNat ch), by simp [setCell, hnonneg, hrow, hget],
    map_length_set hrow _ ch, cell_set ch hnonneg hrow hj⟩

/-- Writing back what was read undoes an assignment. -/
theorem setCell_undo {r c : Int} {ch other : Char} (hcell : cell maze r c = some ch)
    (hset : setCell maze r c other = some mid) : setCell mid r c ch = some maze := by
  obtain ⟨hnonneg, row, hrow, hget⟩ := row_of_cell hcell
  obtain ⟨hi, hget'⟩ := List.getElem?_eq_some_iff.1 hrow
  obtain ⟨hj, hch⟩ := List.getElem?_eq_some_iff.1 hget
  unfold setCell at hset ⊢
  simp only [if_neg hnonneg, hrow, hget, Option.bind_eq_bind, Option.bind_some,
    Option.some.injEq] at hset
  subst hset
  have hrestored : maze.set r.toNat row = maze := by
    rw [← hget', List.set_getElem_self]
  have hrow' : row.set c.toNat ch = row := by
    rw [← hch, List.set_getElem_self]
  simp [hnonneg, hi, hj, hrow', hrestored]

/-! ## Crumbs -/

/-- Crumbs leave a walled maze. -/
theorem Crumbs.walled (h : Crumbs v maze maze') (hwalled : Walled maze nRows nCols) :
    Walled maze' nRows nCols where
  rows := (rectangle_of_shape h.shape hwalled.rows hwalled.columns).1
  columns := (rectangle_of_shape h.shape hwalled.rows hwalled.columns).2
  border := by
    intro p hp
    by_cases hpv : p = v
    · subst hpv
      have hcell : cell maze' p.1 p.2 = some '.' := hp
      rw [h.start] at hcell
      exact absurd hcell (by decide)
    · rcases h.others p hpv with hsame | ⟨hopen, -⟩
      · exact hwalled.border p (show cell maze p.1 p.2 = some '.' from hsame ▸ hp)
      · exact hwalled.border p hopen

/-- Crumbs of a search and of its descent. -/
theorem Crumbs.descend (h : Crumbs v maze mid) (hb : b ∈ openCells mid)
    (hnext : Crumbs b mid after) : Crumbs v maze after where
  shape := hnext.shape.trans h.shape
  start := by
    have hvb : v ≠ b := by
      intro heq
      have hcell : cell mid b.1 b.2 = some '.' := hb
      rw [← heq, h.start] at hcell
      exact absurd hcell (by decide)
    rcases hnext.others v hvb with hsame | ⟨-, hcrumb⟩
    · exact hsame.trans h.start
    · exact hcrumb
  others := by
    intro p hpv
    have hopen : p ∈ openCells mid → p ∈ openCells maze := by
      intro hp
      rcases h.others p hpv with hsame | ⟨hopen, -⟩
      · exact (show cell maze p.1 p.2 = some '.' from hsame ▸ hp)
      · exact hopen
    by_cases hpb : p = b
    · subst hpb
      exact .inr ⟨hopen hb, hnext.start⟩
    · rcases hnext.others p hpb with hsame | ⟨hp, hcrumb⟩
      · rw [hsame]
        exact h.others p hpv
      · exact .inr ⟨hopen hp, hcrumb⟩

/-- The first crumb closes the start. -/
theorem openCells_crumb
    (h : ∀ r c, cell maze' r c = if (r, c) = v then some '#' else cell maze r c) :
    openCells maze' = openCells maze \ {v} := by
  ext p
  show cell maze' p.1 p.2 = some '.' ↔ cell maze p.1 p.2 = some '.' ∧ p ≠ v
  rw [h]
  split
  · next heq => simp [show p = v from heq]
  · next hne => simp [show p ≠ v from hne]

/-- The first crumb. -/
theorem exists_crumb (h : Walled maze nRows nCols) (hv : Interior nRows nCols v) :
    ∃ maze', setCell maze v.1 v.2 '#' = some maze' ∧ Crumbs v maze maze' ∧
      openCells maze' = openCells maze \ {v} := by
  unfold Interior at hv
  obtain ⟨ch, hch⟩ := exists_cell h.rows h.columns (r := v.1) (c := v.2) (by omega) (by omega)
  obtain ⟨maze', hset, hshape, hcells⟩ := setCell_eq '#' hch
  refine ⟨maze', hset, ⟨hshape, ?_, ?_⟩, openCells_crumb hcells⟩
  · rw [hcells, if_pos rfl]
  · intro p hpv
    have hne : (p.1, p.2) ≠ (v.1, v.2) := hpv
    rw [hcells, if_neg hne]
    exact .inl rfl

/-! ## The search -/

/-- A call that meets the goal in a descent has met it. -/
theorem Searched.of_descend (hcrumbs : Crumbs v maze mid)
    (hmarks : Marks Adjacent v (openCells maze) (openCells mid)) (hadj : Adjacent v b)
    (hb : b ∈ openCells mid) (hnext : Searched goal b mid (true, after)) :
    Searched goal v maze (true, after) where
  crumbs := hcrumbs.descend hb hnext.crumbs
  marks := hmarks.descend hadj hb hnext.marks
  found := by
    intro _
    have hwalk := (hnext.found rfl).mono hmarks.subset
    exact Relation.ReflTransGen.head ⟨hadj, hmarks.subset hb⟩ hwalk
  exhausts := fun h => by cases h

/-- The tests of the cells around, by induction on those that are still to be tried, if the
searches with fewer than `n` other open cells are right. -/
theorem tryCells_searches {n : Nat}
    (search : Nat → List (List Char) → Int → Int → Option (Bool × List (List Char)))
    (hsearch : ∀ {maze : List (List Char)} {b : Int × Int}, Walled maze nRows nCols →
      Interior nRows nCols b → (openCells maze \ {b}).ncard < n →
      ∃ result, (∀ fuel, n ≤ fuel → search fuel maze b.1 b.2 = some result) ∧
        Searched goal b maze result)
    (hwalled : Walled maze nRows nCols) (hv : Interior nRows nCols v)
    (hcard : (openCells maze \ {v}).ncard ≤ n) (cells : List (Int × Int))
    (hcells : ∀ b ∈ cells, Adjacent v b) {tried : Int × Int → Prop}
    (hall : ∀ b, Adjacent v b → b ∈ cells ∨ tried b) (hcrumbs : Crumbs v maze mid)
    (htries : Tries Adjacent goal v tried (openCells maze) (openCells mid)) :
    ∃ result, (∀ fuel, n ≤ fuel → tryCells (search fuel) cells mid = some result) ∧
      Searched goal v maze result := by
  induction cells generalizing mid tried with
  | nil =>
      have htried : ∀ b, Adjacent v b → tried b := fun b hb =>
        (hall b hb).resolve_left List.not_mem_nil
      refine ⟨(false, mid), fun _ _ => rfl, hcrumbs, htries.toMarks, ?_, fun _ =>
        htries.exhausts htried⟩
      intro h
      cases h
  | cons b cells ih =>
      have hadj : Adjacent v b := hcells b List.mem_cons_self
      have hcells' : ∀ a ∈ cells, Adjacent v a := fun a ha =>
        hcells a (List.mem_cons_of_mem b ha)
      have hall' : ∀ a, Adjacent v a → a ∈ cells ∨ a = b ∨ tried a := by
        intro a ha
        rcases hall a ha with hmem | htried
        · rcases List.mem_cons.1 hmem with heq | hmem
          · exact .inr (.inl heq)
          · exact .inl hmem
        · exact .inr (.inr htried)
      have hwalled' := hcrumbs.walled hwalled
      have hrange : (0 ≤ b.1 ∧ b.1 < nRows) ∧ 0 ≤ b.2 ∧ b.2 < nCols := by
        simp only [Adjacent, List.mem_cons, List.not_mem_nil, or_false] at hadj
        unfold Interior at hv
        rcases hadj with rfl | rfl | rfl | rfl <;> simp only <;> omega
      obtain ⟨ch, hch⟩ := exists_cell hwalled'.rows hwalled'.columns hrange.1 hrange.2
      by_cases hopen : ch = '.'
      -- the call for an open cell meets the goal, or leaves the rest to the other tests
      · subst hopen
        have hb : b ∈ openCells mid := hch
        have hlt := htries.ncard_lt hwalled.finite hb
        obtain ⟨⟨found, next⟩, hnext, hsearched⟩ :=
          hsearch hwalled' (hwalled'.interior hb) (hlt.trans_le hcard)
        cases found with
        | true =>
            refine ⟨(true, next), fun fuel hfuel => ?_,
              .of_descend hcrumbs htries.toMarks hadj hb hsearched⟩
            simp [tryCells, hch, hnext fuel hfuel]
        | false =>
            obtain ⟨result, hrest, hdone⟩ := ih hcells' hall' (hcrumbs.descend hb hsearched.crumbs)
              (htries.descend hadj hb (hsearched.exhausts rfl))
            refine ⟨result, fun fuel hfuel => ?_, hdone⟩
            simp [tryCells, hch, hnext fuel hfuel, hrest fuel hfuel]
      · have hb : b ∉ openCells mid := by
          intro hb
          have hcell : cell mid b.1 b.2 = some '.' := hb
          rw [hch] at hcell
          exact hopen (Option.some.inj hcell)
        obtain ⟨result, hrest, hdone⟩ := ih hcells' hall' hcrumbs (htries.skip hb)
        refine ⟨result, fun fuel hfuel => ?_, hdone⟩
        simp [tryCells, hch, hopen, hrest fuel hfuel]

/-- Every call searches, by induction on the number of other open cells. -/
theorem canWeFinish_searches (er ec : Int) (n : Nat) (hwalled : Walled maze nRows nCols)
    (hv : Interior nRows nCols v) (hcard : (openCells maze \ {v}).ncard < n) :
    ∃ result, (∀ fuel, n ≤ fuel →
        canWeFinish fuel maze nRows nCols v.1 v.2 er ec = some result) ∧
      Searched (er, ec) v maze result := by
  induction n generalizing maze v with
  | zero => exact absurd hcard (Nat.not_lt_zero _)
  | succ n ih =>
      obtain ⟨mid, hset, hcrumbs, hopen⟩ := exists_crumb hwalled hv
      have hmarks : Marks Adjacent v (openCells maze) (openCells mid) := by
        rw [hopen]
        exact .mark v _
      by_cases hgoal : v.1 = er ∧ v.2 = ec
      · refine ⟨(true, mid), fun fuel hfuel => ?_, hcrumbs, hmarks, fun _ => ?_, fun h => ?_⟩
        · obtain ⟨fuel, rfl⟩ := Nat.exists_eq_add_one_of_ne_zero (Nat.ne_zero_of_lt hfuel)
          simp only [canWeFinish, hset, Option.bind_eq_bind, Option.bind_some, if_pos hgoal]
        · rw [← hgoal.1, ← hgoal.2]
          exact Relation.ReflTransGen.refl
        · cases h
      · have hne : (er, ec) ≠ v := by
          intro heq
          subst heq
          exact hgoal ⟨rfl, rfl⟩
        have htries : Tries Adjacent (er, ec) v (fun _ => False) (openCells maze)
            (openCells mid) := by
          rw [hopen]
          exact .mark _ hne
        obtain ⟨result, hrest, hdone⟩ := tryCells_searches (fun fuel maze r c =>
          canWeFinish fuel maze nRows nCols r c er ec) ih hwalled hv (Nat.le_of_lt_succ hcard)
          [(v.1 - 1, v.2), (v.1 + 1, v.2), (v.1, v.2 + 1), (v.1, v.2 - 1)] (fun _ h => h)
          (fun _ h => .inl h) hcrumbs htries
        refine ⟨result, fun fuel hfuel => ?_, hdone⟩
        obtain ⟨fuel, rfl⟩ := Nat.exists_eq_add_one_of_ne_zero (Nat.ne_zero_of_lt hfuel)
        have hcells := hrest fuel (Nat.le_of_succ_le_succ hfuel)
        simp only [canWeFinish, hset, Option.bind_eq_bind, Option.bind_some, if_neg hgoal]
        exact hcells

/-- The search ends inside the maze and returns whether the end can be reached; all it
changes are the start and reachable cells, which become crumbs. -/
theorem canWeFinish_correct {maze : List (List Char)} {nRows nCols : Nat} {sr sc : Int}
    (er ec : Int) (hwalled : Walled maze nRows nCols) (hstart : Interior nRows nCols (sr, sc)) :
    ∃ found maze', (∃ enough, ∀ fuel, enough ≤ fuel →
        canWeFinish fuel maze nRows nCols sr sc er ec = some (found, maze')) ∧
      (found = true ↔ Reaches Adjacent (openCells maze) (sr, sc) (er, ec)) ∧
      maze'.map List.length = maze.map List.length ∧
      cell maze' sr sc = some '#' ∧
      ∀ r c, cell maze' r c = cell maze r c ∨ cell maze' r c = some '#' ∧
        ((r, c) = (sr, sc) ∨ cell maze r c = some '.' ∧
          Reaches Adjacent (openCells maze) (sr, sc) (r, c)) := by
  obtain ⟨⟨found, maze'⟩, hresult, hsearched⟩ :=
    canWeFinish_searches er ec _ hwalled hstart (Nat.lt_succ_self _)
  refine ⟨found, maze', ⟨_, hresult⟩, ⟨hsearched.found, fun hwalk => ?_⟩, hsearched.crumbs.shape,
    hsearched.crumbs.start, fun r c => ?_⟩
  · cases found with
    | true => rfl
    | false => exact absurd hwalk (hsearched.exhausts rfl).not_reaches
  · by_cases hrc : (r, c) = (sr, sc)
    · cases hrc
      exact .inr ⟨hsearched.crumbs.start, .inl rfl⟩
    · rcases hsearched.crumbs.others (r, c) hrc with hsame | ⟨hopen, hcrumb⟩
      · exact .inl hsame
      · have hclosed : (r, c) ∉ openCells maze' := by
          intro hmem
          have hcell : cell maze' r c = some '.' := hmem
          rw [show cell maze' r c = some '#' from hcrumb] at hcell
          exact absurd hcell (by decide)
        exact .inr ⟨hcrumb, .inr ⟨hopen, hsearched.marks.reached _ hopen hclosed⟩⟩

/-- In a corridor of two cells the second is found from the first. -/
theorem corridor_correct : ∃ found maze', (∃ enough, ∀ fuel, enough ≤ fuel →
      canWeFinish fuel [['#', '#', '#', '#'], ['#', '.', '.', '#'], ['#', '#', '#', '#']]
        (3 : Nat) (4 : Nat) 1 1 1 2 = some (found, maze')) ∧ found = true := by
  have hwalled : Walled [['#', '#', '#', '#'], ['#', '.', '.', '#'], ['#', '#', '#', '#']] 3 4 := by
    refine ⟨rfl, by decide, fun p hp => ?_⟩
    obtain ⟨⟨hr, hr'⟩, hc, hc'⟩ := range_of_cell
      (show [['#', '#', '#', '#'], ['#', '.', '.', '#'], ['#', '#', '#', '#']].length = 3 from rfl)
      (show ∀ row ∈ [['#', '#', '#', '#'], ['#', '.', '.', '#'], ['#', '#', '#', '#']],
        row.length = 4 by decide) hp
    obtain ⟨r, c⟩ := p
    simp only at *
    have hcell : cell [['#', '#', '#', '#'], ['#', '.', '.', '#'], ['#', '#', '#', '#']] r c =
      some '.' := hp
    clear hp
    interval_cases r <;> interval_cases c <;> revert hcell <;> decide
  obtain ⟨found, maze', hresult, hfound, -⟩ :=
    canWeFinish_correct 1 2 hwalled (show Interior 3 4 (1, 1) by
      unfold Interior
      decide)
  refine ⟨found, maze', hresult, hfound.2 ?_⟩
  refine Relation.ReflTransGen.single ⟨by unfold Adjacent; decide, ?_⟩
  show cell _ 1 2 = some '.'
  decide

end Coursework.Maze
