import Coursework.Maze.Correctness
import Coursework.OilField.Actors
import Coursework.Search.Backing
import Mathlib.Order.Interval.Finset.Basic
import Mathlib.Data.Int.Interval

/-!
# Protesters that give up

The search of `find_path` never enters column `60`, where the exit is, so it backs out of every
square it enters and its path is the letters of all the squares it entered (`findPath_eq`). A
protester that follows this path leaves only from next to the exit, and only on a level where it
waits between moves: without a wait `doSomething` puts it back to searching.
Vocabulary and scope: `Coursework.OilField.ExitPath`.
-/

namespace Coursework.OilField

open Maze Search

/-- The exit that `update_protestorMaze` sets. -/
def exitSquare : Int × Int := (60, 59)

/-- The clear squares of the maze and the exit. -/
def StudentWorld.passable (w : StudentWorld) : Set (Int × Int) :=
  {q | cell w.updateProtestorMaze q.1 q.2 = some '.' ∨
    cell w.updateProtestorMaze q.1 q.2 = some 'Q'}

/-- The exit can be reached through clear squares. -/
def StudentWorld.ExitReachable (w : StudentWorld) (x y : Int) : Prop :=
  Reaches Adjacent w.passable (x, y) exitSquare

/-- The square that a letter leads to. -/
def letterStep (q : Int × Int) (letter : Char) : Int × Int :=
  match letterDirection letter with
  | none => q
  | some direction => direction.ahead q.1 q.2

/-- The squares that a path enters. -/
def entered : Int × Int → List Char → List (Int × Int)
  | _, [] => []
  | q, letter :: path => letterStep q letter :: entered (letterStep q letter) path

/-- The letters of a path lead through clear squares to the exit. -/
structure StudentWorld.Leads (w : StudentWorld) (q : Int × Int) (path : List Char) : Prop where
  clear : ∀ r ∈ entered q path, r ∈ w.passable
  ends : path.foldl letterStep q = exitSquare

/-- A call of `doSomething` of a protester that is not at `(60, 60)` yet, whatever the others have
made of the world. -/
def DoesSomething (s s' : Actor × RegularProtestor) : Prop :=
  ¬ (s.1.x = 60 ∧ s.1.y = 60) ∧ ∃ w w', s.1.protest w s.2 = some (s'.1, s'.2, w')

/-- A call takes one letter off the path if it moves the protester, and none if it does not. -/
def OneLetterPerMove (s : Actor × RegularProtestor) : Prop :=
  ∀ before after, Relation.ReflTransGen DoesSomething s before → DoesSomething before after →
    before.2.exitPath.length = after.2.exitPath.length +
      if (after.1.x, after.1.y) = (before.1.x, before.1.y) then 0 else 1

/-- A protester that gives up gets a path that leads to the exit, and follows it letter by
letter. -/
def CanLeave (w : StudentWorld) (a : Actor) (p : RegularProtestor) : Prop :=
  ∃ path w', w.createPath a.x a.y [] = some (path, w') ∧ w.Leads (a.x, a.y) path ∧
    OneLetterPerMove (a.setState .exiting, { p with exitPath := path })

/-- The protester is on the exit and the square on its left is not clear, or it is below the exit,
faces it, and the square on its left is the only clear one of those that the search looks at. -/
def NextToExit (w : StudentWorld) (a : Actor) : Prop :=
  a.x = 60 ∧ (a.y = 59 ∧ w.mazeSquare 59 59 = 'X' ∨
    a.y = 58 ∧ a.direction = .up ∧ w.mazeSquare 59 58 = '.' ∧ w.mazeSquare 58 58 = 'X' ∧
      w.mazeSquare 59 57 = 'X' ∧ w.mazeSquare 59 59 = 'X')

/-- The squares that `find_path` may enter. -/
def openSquares (maze : List (List Char)) (q : Int × Int) : Bool :=
  decide (0 ≤ q.1 ∧ 0 ≤ q.2 ∧ q.1 < 60 ∧ q.2 < 60 ∧ cell maze q.1 q.2 = some '.')

/-- The squares around, with the letters of `dir_str`. -/
def around (q : Int × Int) : List ((Int × Int) × Char) :=
  directions.map fun d => ((q.1 + d.1, q.2 + d.2.1), d.2.2)

/-- An array of the maze's shape without an exit where `find_path` looks. -/
structure Sealed (maze : List (List Char)) : Prop where
  rows : maze.length = 63
  columns : ∀ row ∈ maze, row.length = 60
  noExit : ∀ x y, x < 60 → y < 60 → cell maze x y ≠ some 'Q'

variable {w : StudentWorld} {a : Actor} {p : RegularProtestor} {maze mid : List (List Char)}
  {q : Int × Int} {path : List Char}

/-! ## The search backs out of every square -/

/-- A crumb closes its square. -/
theorem openSquares_mark {r : Int × Int}
    (hcells : ∀ x y, cell mid x y = if (x, y) = r then some 'V' else cell maze x y) :
    openSquares mid = fun s => decide (s ≠ r) && openSquares maze s := by
  funext s
  unfold openSquares
  rw [hcells]
  by_cases hs : s = r
  · subst hs
    simp
  · simp [hs]

/-- A crumb leaves the maze without an exit. -/
theorem Sealed.mark (h : Sealed maze) {r : Int × Int}
    (hshape : mid.map List.length = maze.map List.length)
    (hcells : ∀ x y, cell mid x y = if (x, y) = r then some 'V' else cell maze x y) :
    Sealed mid where
  rows := (rectangle_of_shape hshape h.rows h.columns).1
  columns := (rectangle_of_shape hshape h.rows h.columns).2
  noExit := by
    intro x y hx hy
    rw [hcells]
    split
    · decide
    · exact h.noExit x y hx hy

/-- The loop over the squares around appends the letters of the searches it makes, and leaves the
maze as it was, if the searches do. -/
theorem tryDirections_eq (h : Sealed maze)
    {search : List (List Char) → Int → Int → List Char → Bool →
      Option (List (List Char) × List Char × Bool)} (letters : Int × Int → List Char)
    (hsearch : ∀ r, openSquares maze r = true → ∀ mid,
      (∀ x y, cell mid x y = if (x, y) = r then some 'V' else cell maze x y) →
      mid.map List.length = maze.map List.length → ∀ path,
        search mid r.1 r.2 path false = some (mid, path ++ letters r, false))
    (ds : List (Int × Int × Char)) (path : List Char) :
    tryDirections search q.1 q.2 60 60 ds maze path false =
      some (maze, path ++ (ds.map fun d => ((q.1 + d.1, q.2 + d.2.1), d.2.2)).flatMap (fun s =>
        if openSquares maze s.1 then s.2 :: letters s.1 else []), false) := by
  induction ds generalizing path with
  | nil => simp [tryDirections]
  | cons d ds ih =>
      obtain ⟨dx, dy, letter⟩ := d
      unfold tryDirections
      simp only [List.map_cons, List.flatMap_cons]
      split
      · next hbounds =>
        obtain ⟨h0, h0', hx, hy⟩ := hbounds
        obtain ⟨ch, hch⟩ := exists_cell h.rows h.columns (r := q.1 + dx) (c := q.2 + dy)
          (by omega) (by omega)
        by_cases hdot : ch = '.'
        -- an open square is searched, and the maze is as before afterwards
        · subst hdot
          have hopen : openSquares maze (q.1 + dx, q.2 + dy) = true := by
            simp [openSquares, h0, h0', hx, hy, hch]
          obtain ⟨mid, hset, hshape, hcells⟩ := setCell_eq 'V' hch
          have hnext := hsearch _ hopen mid hcells hshape
          have hundo := setCell_undo hch hset
          simp only [hch, hset, hnext, Option.bind_eq_bind, Option.bind_some, if_true, takeUp,
            Bool.false_eq_true, if_false, hundo, ih, if_pos hopen]
          simp
        · have hnot : ¬ openSquares maze (q.1 + dx, q.2 + dy) = true := by
            simp [openSquares, hch, hdot]
          have hexit : ch ≠ 'Q' := by
            intro heq
            subst heq
            exact h.noExit _ _ hx hy hch
          simp only [hch, Option.bind_eq_bind, Option.bind_some, if_neg hdot, if_neg hexit, ih,
            if_neg hnot, List.nil_append]
      · next hbounds =>
        have hnot : ¬ openSquares maze (q.1 + dx, q.2 + dy) = true := by
          intro hopen
          have hopen' := of_decide_eq_true hopen
          exact hbounds ⟨hopen'.1, hopen'.2.1, hopen'.2.2.1, hopen'.2.2.2.1⟩
        simp only [ih, if_neg hnot, List.nil_append]

/-- There are at most `3600` squares to enter. -/
theorem openSquares_finite (maze : List (List Char)) :
    {r | openSquares maze r = true}.Finite ∧
      {r | openSquares maze r = true}.ncard ≤ 60 * 60 := by
  have hsub : {r | openSquares maze r = true} ⊆
      ↑(Finset.Ico (0 : Int) 60 ×ˢ Finset.Ico (0 : Int) 60) := by
    intro r hr
    have hopen := of_decide_eq_true hr
    rw [Finset.mem_coe, Finset.mem_product, Finset.mem_Ico, Finset.mem_Ico]
    exact ⟨⟨hopen.1, hopen.2.2.1⟩, hopen.2.1, hopen.2.2.2.1⟩
  refine ⟨(Finset.finite_toSet _).subset hsub, ?_⟩
  have hle := Set.ncard_le_ncard hsub (Finset.finite_toSet _)
  rw [Set.ncard_coe_finset, Finset.card_product, Int.card_Ico] at hle
  exact hle

/-- A crumb leaves fewer squares to enter. -/
theorem ncard_mark_lt {r : Int × Int} (hopen : openSquares maze r = true)
    (hcells : ∀ x y, cell mid x y = if (x, y) = r then some 'V' else cell maze x y) :
    {s | openSquares mid s = true}.ncard < {s | openSquares maze s = true}.ncard := by
  have hmark := openSquares_mark hcells
  refine Set.ncard_lt_ncard ⟨?_, ?_⟩ (openSquares_finite maze).1
  · intro s hs
    rw [Set.mem_ofPred_eq, hmark, Bool.and_eq_true] at hs
    exact hs.2
  · intro hsub
    have hr := hsub hopen
    rw [Set.mem_ofPred_eq, hmark] at hr
    simp at hr

/-- A search that meets no exit leaves the maze as it was, by induction on the number of squares
it may enter. -/
theorem findPath_eq (fuel : Nat) (h : Sealed maze)
    (hfuel : {r | openSquares maze r = true}.ncard < fuel) (path : List Char) :
    findPath fuel maze q.1 q.2 path false 60 60 =
      some (maze, path ++ trail around fuel (openSquares maze) q, false) := by
  induction fuel generalizing maze q path with
  | zero => exact absurd hfuel (Nat.not_lt_zero _)
  | succ fuel ih =>
      unfold findPath trail
      simp only [Bool.false_eq_true, if_false]
      refine tryDirections_eq h (fun r =>
        trail around fuel (fun s => decide (s ≠ r) && openSquares maze s) r) ?_ directions path
      intro r hopen mid hcells hshape path
      have hlt := ncard_mark_lt hopen hcells
      rw [ih (h.mark hshape hcells) (by omega) path, openSquares_mark hcells]

/-! ## The maze of the field -/

/-- The character of a square of the maze. -/
theorem cell_updateProtestorMaze (w : StudentWorld) {x y : Int} (hx : 0 ≤ x ∧ x < 63)
    (hy : 0 ≤ y ∧ y < 60) : cell w.updateProtestorMaze x y =
      some (if (x, y) = exitSquare then 'Q' else w.mazeSquare x y) := by
  obtain ⟨i, rfl⟩ := Int.eq_ofNat_of_zero_le hx.1
  obtain ⟨j, rfl⟩ := Int.eq_ofNat_of_zero_le hy.1
  have hi : i < 63 := by omega
  have hj : j < 60 := by omega
  have hnonneg : ¬ ((i : Int) < 0 ∨ (j : Int) < 0) := by omega
  have hexit : ((i : Int), (j : Int)) = exitSquare ↔ i = 60 ∧ j = 59 := by
    unfold exitSquare
    rw [Prod.mk.injEq]
    omega
  simp [cell, StudentWorld.updateProtestorMaze, hi, hj, hexit]

/-- The shape of the maze. -/
theorem shape_updateProtestorMaze (w : StudentWorld) : w.updateProtestorMaze.length = 63 ∧
    ∀ row ∈ w.updateProtestorMaze, row.length = 60 := by
  constructor
  · simp [StudentWorld.updateProtestorMaze]
  · intro row hrow
    obtain ⟨i, -, rfl⟩ := List.mem_map.1 hrow
    simp

/-- A square of the field is marked as clear or not. -/
theorem mazeSquare_cases (w : StudentWorld) (x y : Int) :
    w.mazeSquare x y = 'X' ∨ w.mazeSquare x y = '.' := by
  unfold StudentWorld.mazeSquare
  split
  · exact .inl rfl
  · exact .inr rfl

/-- The exit is not where `find_path` looks. -/
theorem sealed_updateProtestorMaze (w : StudentWorld) : Sealed w.updateProtestorMaze where
  rows := (shape_updateProtestorMaze w).1
  columns := (shape_updateProtestorMaze w).2
  noExit := by
    intro x y hx hy hcell
    have hrange := range_of_cell (shape_updateProtestorMaze w).1 (shape_updateProtestorMaze w).2
      hcell
    rw [cell_updateProtestorMaze w (by omega) (by omega)] at hcell
    have hne : (x, y) ≠ exitSquare := by
      unfold exitSquare
      rw [Ne, Prod.mk.injEq]
      omega
    rw [if_neg hne] at hcell
    rcases mazeSquare_cases w x y with hX | hdot
    · rw [hX] at hcell
      exact absurd hcell (by decide)
    · rw [hdot] at hcell
      exact absurd hcell (by decide)

/-- `create_path` always returns, with the letters of the squares that are entered. -/
theorem createPath_eq (w : StudentWorld) (x y : Int) (path : List Char) :
    w.createPath x y path =
      some (path ++ trail around (60 * 60 + 1) (openSquares w.updateProtestorMaze) (x, y),
        { w with protestorMaze := w.updateProtestorMaze }) := by
  have hcard := Nat.lt_succ_of_le (openSquares_finite w.updateProtestorMaze).2
  have hfind := findPath_eq (q := (x, y)) (60 * 60 + 1) (sealed_updateProtestorMaze w) hcard path
  unfold StudentWorld.createPath
  rw [hfind]
  rfl

/-- The squares of the field that `find_path` may enter. -/
theorem openSquares_iff (w : StudentWorld) (x y : Int) :
    openSquares w.updateProtestorMaze (x, y) = true ↔
      (0 ≤ x ∧ 0 ≤ y ∧ x < 60 ∧ y < 60) ∧ w.mazeSquare x y = '.' := by
  unfold openSquares
  rw [decide_eq_true_iff]
  constructor
  · intro ⟨hx, hy, hx', hy', hcell⟩
    rw [cell_updateProtestorMaze w (by omega) (by omega)] at hcell
    refine ⟨⟨hx, hy, hx', hy'⟩, ?_⟩
    have hne : (x, y) ≠ exitSquare := by
      unfold exitSquare
      rw [Ne, Prod.mk.injEq]
      omega
    rwa [if_neg hne, Option.some.injEq] at hcell
  · intro ⟨⟨hx, hy, hx', hy'⟩, hdot⟩
    have hne : (x, y) ≠ exitSquare := by
      unfold exitSquare
      rw [Ne, Prod.mk.injEq]
      omega
    refine ⟨hx, hy, hx', hy', ?_⟩
    rw [cell_updateProtestorMaze w (by omega) (by omega), if_neg hne, hdot]

/-- A square where `find_path` looks is closed if and only if it is not clear. -/
theorem openSquares_eq_false_iff (w : StudentWorld) {x y : Int} (hx : 0 ≤ x ∧ x < 60)
    (hy : 0 ≤ y ∧ y < 60) :
    openSquares w.updateProtestorMaze (x, y) = false ↔ w.mazeSquare x y = 'X' := by
  rw [← Bool.not_eq_true, openSquares_iff]
  constructor
  · intro hnot
    refine (mazeSquare_cases w x y).resolve_right fun hdot => hnot ⟨?_, hdot⟩
    omega
  · intro hX ⟨_, hdot⟩
    rw [hX] at hdot
    exact absurd hdot (by decide)

/-! ## Following the path -/

/-- The clock has nothing to do with the path. -/
theorem tick_exitPath (p : RegularProtestor) : p.tick.exitPath = p.exitPath := by
  unfold RegularProtestor.tick
  split <;> rfl

/-- The clock for shouts has nothing to do with the wait between moves. -/
theorem tick_ticksToWait (p : RegularProtestor) :
    p.tick.ticksToWaitBetweenMoves = p.ticksToWaitBetweenMoves := by
  unfold RegularProtestor.tick
  split <;> rfl

/-- A step along the path keeps the wait. -/
theorem leave_ticksToWait (a : Actor) (p : RegularProtestor) :
    (a.leave p).2.ticksToWaitBetweenMoves = p.ticksToWaitBetweenMoves := by
  unfold Actor.leave
  simp only
  split <;> simp only [tick_ticksToWait]

/-- `doSomething` of a protester that leaves and waits between moves is a step along its path. -/
theorem protest_exiting (w : StudentWorld) (hstate : a.state = .exiting)
    (hwait : 0 < p.ticksToWaitBetweenMoves) (hnot : ¬ (a.x = 60 ∧ a.y = 60)) :
    a.protest w p = some ((a.leave p.tick).1, (a.leave p.tick).2, w) := by
  have hwaits : ¬ p.tick.ticksToWaitBetweenMoves ≤ 0 := by
    rw [tick_ticksToWait]
    omega
  unfold Actor.protest
  simp only [if_neg hwaits, hstate, reduceCtorEq, if_false, if_true, if_neg hnot]

theorem DoesSomething.eq_leave {s : Actor × RegularProtestor} (h : DoesSomething (a, p) s)
    (hstate : a.state = .exiting) (hwait : 0 < p.ticksToWaitBetweenMoves) :
    s = a.leave p.tick := by
  obtain ⟨hnot, w, w', hprotest⟩ := h
  have heq := (protest_exiting w hstate hwait hnot).symm.trans hprotest
  simp only [Option.some.injEq, Prod.mk.injEq] at heq
  exact (Prod.ext heq.1 heq.2.1).symm

/-- Without a wait the protester is put back to searching; it sees a player who is in another row
and another column, and moves without a letter. -/
theorem not_oneLetterPerMove (w : StudentWorld) (hwait : p.ticksToWaitBetweenMoves ≤ 0)
    (hnot : ¬ (a.x = 60 ∧ a.y = 60)) : ¬ OneLetterPerMove (a, p) := by
  intro h
  let away : StudentWorld :=
    { w with tunnelMan := { w.tunnelMan with x := a.x + 5, y := a.y + 5 } }
  have hwaits : p.tick.ticksToWaitBetweenMoves ≤ 0 := by rwa [tick_ticksToWait]
  have hnear : away.nearPlayer 4 a.x a.y = false := by
    simp [away, StudentWorld.nearPlayer, within]
  have hsaw : (a.setState .searching).sawPlayer away = true := by
    simp [away, Actor.sawPlayer, Actor.setState, StudentWorld.clearPath]
  have hmove : (a.setState .searching).moveTowardPlayer away =
      (a.setState .searching).step .right := if_pos (by simp [away, Actor.setState])
  have hprotest : a.protest away p =
      some ((a.setState .searching).step .right, p.tick, away) := by
    unfold Actor.protest
    simp only [if_pos hwaits, hsaw, hmove]
    simp [Actor.setState, hnear]
  have hstep := h (a, p) ((a.setState .searching).step .right, p.tick) .refl
    ⟨hnot, away, away, hprotest⟩
  simp [tick_exitPath, Actor.step, Actor.setState, Actor.setDirection, Actor.moveTo,
    Direction.ahead] at hstep

/-- Without letters left the protester stays. -/
theorem leave_nil (h : p.exitPath = []) : a.leave p.tick = (a, p.tick.tick) := by
  unfold Actor.leave
  simp only [tick_exitPath, h, List.headD_nil, ne_eq, not_true_eq_false, if_false]
  rfl

/-- A step erases the whole path. -/
theorem leave_cons {c : Char} {cs : List Char} (hc : c ≠ '\x00') (h : p.exitPath = c :: cs) :
    (a.leave p.tick).1 = a.followExitPath c ∧ (a.leave p.tick).2.exitPath = [] := by
  unfold Actor.leave
  simp only [tick_exitPath, h, List.headD_cons, ne_eq, hc, not_false_eq_true, if_true,
    List.take_zero]
  exact ⟨trivial, trivial⟩

/-- A protester that faces the direction of a letter moves to the square that it leads to. -/
theorem followExitPath_facing {c : Char} (h : letterDirection c = some a.direction) :
    ((a.followExitPath c).x, (a.followExitPath c).y) = letterStep (a.x, a.y) c := by
  unfold Actor.followExitPath letterStep
  rw [h]
  simp [Actor.moveTo]

/-- A protester that faces another direction stays. -/
theorem followExitPath_turning {c : Char} (h : letterDirection c ≠ some a.direction) :
    ((a.followExitPath c).x, (a.followExitPath c).y) = (a.x, a.y) := by
  unfold Actor.followExitPath
  split
  · rfl
  · next direction hdirection =>
    have hne : a.direction ≠ direction := by
      intro heq
      subst heq
      exact h hdirection
    rw [if_pos hne]
    rfl

/-- A letter does not change the state. -/
theorem followExitPath_state (c : Char) : (a.followExitPath c).state = a.state := by
  unfold Actor.followExitPath
  split
  · rfl
  · split <;> rfl

/-- Calls without letters take none. -/
theorem oneLetterPerMove_nil (hstate : a.state = .exiting) (hwait : 0 < p.ticksToWaitBetweenMoves)
    (h : p.exitPath = []) : OneLetterPerMove (a, p) := by
  have hstep : ∀ {q : RegularProtestor} {s : Actor × RegularProtestor},
      0 < q.ticksToWaitBetweenMoves → q.exitPath = [] → DoesSomething (a, q) s →
        s = (a, q.tick.tick) :=
    fun hq hnil hasked => (hasked.eq_leave hstate hq).trans (leave_nil hnil)
  have hstays : ∀ s, Relation.ReflTransGen DoesSomething (a, p) s →
      s.1 = a ∧ 0 < s.2.ticksToWaitBetweenMoves ∧ s.2.exitPath = [] := by
    intro s hrun
    induction hrun with
    | refl => exact ⟨rfl, hwait, h⟩
    | tail _ hasked ih =>
        obtain ⟨rfl, hq, hnil⟩ := ih
        obtain rfl := hstep hq hnil hasked
        exact ⟨rfl, by rwa [tick_ticksToWait, tick_ticksToWait],
          by rw [tick_exitPath, tick_exitPath, hnil]⟩
  intro before after hrun hasked
  obtain ⟨rfl, hq, hnil⟩ := hstays before hrun
  obtain rfl := hstep hq hnil hasked
  simp [tick_exitPath, hnil]

/-- A protester takes one letter for each move only if there is at most one letter and it faces
the direction of the letter. -/
theorem OneLetterPerMove.path_cases (h : OneLetterPerMove (a, p)) (w : StudentWorld)
    (hstate : a.state = .exiting) (hwait : 0 < p.ticksToWaitBetweenMoves)
    (hletters : ∀ c ∈ p.exitPath, c ≠ '\x00')
    (hnot : ¬ (a.x = 60 ∧ a.y = 60)) :
    p.exitPath = [] ∨ ∃ c, p.exitPath = [c] ∧ letterDirection c = some a.direction := by
  cases hpath : p.exitPath with
  | nil => exact .inl rfl
  | cons c cs =>
      right
      have hc : c ≠ '\x00' := hletters c (hpath ▸ List.mem_cons_self)
      have hstep := h (a, p) _ .refl ⟨hnot, w, w, protest_exiting w hstate hwait hnot⟩
      obtain ⟨hactor, hnext⟩ := leave_cons (a := a) hc hpath
      rw [hactor, hnext, hpath] at hstep
      by_cases hfacing : letterDirection c = some a.direction
      · refine ⟨c, ?_, hfacing⟩
        split at hstep
        · simp at hstep
        · simp only [List.length_cons, List.length_nil] at hstep
          rw [List.length_eq_zero_iff.1 (show cs.length = 0 by omega)]
      · rw [if_pos (followExitPath_turning hfacing)] at hstep
        simp at hstep

/-- A step in a direction leads to another square. -/
theorem ahead_ne (direction : Direction) (x y : Int) : direction.ahead x y ≠ (x, y) := by
  cases direction <;> simp [Direction.ahead]

/-- A single letter in the protester's direction is taken by the one move. -/
theorem oneLetterPerMove_singleton {c : Char} (hc : c ≠ '\x00') (hstate : a.state = .exiting)
    (hwait : 0 < p.ticksToWaitBetweenMoves) (h : p.exitPath = [c])
    (hfacing : letterDirection c = some a.direction) : OneLetterPerMove (a, p) := by
  obtain ⟨hactor, hnext⟩ := leave_cons (a := a) hc h
  have hrest : OneLetterPerMove (a.leave p.tick) := by
    have hstate' : (a.leave p.tick).1.state = .exiting := by
      rw [hactor, followExitPath_state, hstate]
    have hwait' : 0 < (a.leave p.tick).2.ticksToWaitBetweenMoves := by
      rwa [leave_ticksToWait, tick_ticksToWait]
    exact oneLetterPerMove_nil hstate' hwait' hnext
  intro before after hrun hasked
  rcases hrun.cases_head with rfl | ⟨s, hfirst, hrun⟩
  · obtain rfl := hasked.eq_leave hstate hwait
    rw [hactor, hnext, h, followExitPath_facing hfacing]
    unfold letterStep
    rw [hfacing, if_neg (ahead_ne a.direction a.x a.y)]
    rfl
  · obtain rfl := hfirst.eq_leave hstate hwait
    exact hrest before after hrun hasked

/-! ## Who can leave -/

/-- The squares around, one by one. -/
theorem around_eq (x y : Int) : around (x, y) =
    [((x - 1, y), 'N'), ((x, y - 1), 'W'), ((x + 1, y), 'S'), ((x, y + 1), 'E')] := by
  simp [around, directions, Int.sub_eq_add_neg]

/-- Every square around is closed. -/
theorem closed_around_iff (opened : Int × Int → Bool) (x y : Int) :
    (∀ s ∈ around (x, y), opened s.1 = false) ↔ opened (x - 1, y) = false ∧
      opened (x, y - 1) = false ∧ opened (x + 1, y) = false ∧ opened (x, y + 1) = false := by
  rw [around_eq]
  simp

/-- Squares right of column `59` are closed to the search. -/
theorem openSquares_column (maze : List (List Char)) {x : Int} (hx : 60 ≤ x) (y : Int) :
    openSquares maze (x, y) = false := by
  refine decide_eq_false fun hopen => ?_
  have hlt : x < 60 := hopen.2.2.1
  omega

/-- Squares above row `59` are closed to the search. -/
theorem openSquares_row (maze : List (List Char)) (x : Int) {y : Int} (hy : 60 ≤ y) :
    openSquares maze (x, y) = false := by
  refine decide_eq_false fun hopen => ?_
  have hlt : y < 60 := hopen.2.2.2.1
  omega

/-- Every letter of a path is one that `followExitPath` knows. -/
theorem letter_ne_nul {fuel : Nat} {opened : Int × Int → Bool} {c : Char}
    (h : c ∈ trail around fuel opened q) : c ≠ '\x00' := by
  obtain ⟨r, s, hs, rfl⟩ := exists_of_mem_trail h
  obtain ⟨d, hd, rfl⟩ := List.mem_map.1 hs
  show d.2.2 ≠ '\x00'
  clear h hs
  revert d
  decide

/-- A protester on the exit gets no letters if and only if the square on its left is not clear. -/
theorem trail_exit_iff (w : StudentWorld) :
    trail around (60 * 60 + 1) (openSquares w.updateProtestorMaze) (60, 59) = [] ↔
      w.mazeSquare 59 59 = 'X' := by
  rw [trail_eq_nil_iff (by decide), closed_around_iff]
  constructor
  · intro h
    exact (openSquares_eq_false_iff w (by decide) (by decide)).1 h.1
  · intro hleft
    exact ⟨(openSquares_eq_false_iff w (by decide) (by decide)).2 hleft,
      openSquares_column _ (by decide) _, openSquares_column _ (by decide) _,
      openSquares_column _ (by decide) _⟩

/-- The search below the exit, from the square on the left, enters no other square if and only if
none is clear. -/
theorem trail_left_iff (w : StudentWorld) :
    trail around (60 * 60)
        (fun r => decide (r ≠ (59, 58)) && openSquares w.updateProtestorMaze r) (59, 58) = [] ↔
      w.mazeSquare 58 58 = 'X' ∧ w.mazeSquare 59 57 = 'X' ∧ w.mazeSquare 59 59 = 'X' := by
  refine (trail_eq_nil_iff (by decide)).trans ((closed_around_iff
    (fun r => decide (r ≠ (59, 58)) && openSquares w.updateProtestorMaze r) 59 58).trans ?_)
  rw [← openSquares_eq_false_iff w (by decide) (by decide),
    ← openSquares_eq_false_iff w (by decide) (by decide),
    ← openSquares_eq_false_iff w (by decide) (by decide)]
  simp [openSquares_column]

/-- A protester below the exit gets the letter of the square on its left. -/
theorem trail_below (hdot : w.mazeSquare 59 58 = '.') (hleft : w.mazeSquare 58 58 = 'X')
    (hbelow : w.mazeSquare 59 57 = 'X') (habove : w.mazeSquare 59 59 = 'X') :
    trail around (60 * 60 + 1) (openSquares w.updateProtestorMaze) (60, 58) = ['N'] := by
  have hopen : openSquares w.updateProtestorMaze (59, 58) = true :=
    (openSquares_iff w _ _).2 ⟨by decide, hdot⟩
  have hrest := (trail_left_iff w).2 ⟨hleft, hbelow, habove⟩
  unfold trail
  rw [around_eq]
  simp only [List.flatMap_cons, List.flatMap_nil, Int.reduceAdd, Int.reduceSub, hopen, hrest,
    openSquares_column _ (show (60 : Int) ≤ 60 by decide),
    openSquares_column _ (show (60 : Int) ≤ 61 by decide), if_true, Bool.false_eq_true, if_false,
    List.append_nil]

/-- A protester that can leave is not at `(60, 60)`, and waits between moves. -/
theorem CanLeave.waits (h : CanLeave w a p) :
    ¬ (a.x = 60 ∧ a.y = 60) ∧ 0 < p.ticksToWaitBetweenMoves := by
  obtain ⟨path, w', hcreate, hleads, hmoves⟩ := h
  rw [createPath_eq, List.nil_append, Option.some.injEq, Prod.mk.injEq] at hcreate
  obtain ⟨rfl, -⟩ := hcreate
  have hnot : ¬ (a.x = 60 ∧ a.y = 60) := by
    intro ⟨hx, hy⟩
    have hnil : trail around (60 * 60 + 1) (openSquares w.updateProtestorMaze) (60, 60) = [] := by
      rw [trail_eq_nil_iff (by decide), closed_around_iff]
      exact ⟨openSquares_row _ _ (by decide), openSquares_column _ (by decide) _,
        openSquares_column _ (by decide) _, openSquares_column _ (by decide) _⟩
    have hends := hleads.ends
    rw [hx, hy, hnil] at hends
    exact absurd hends (by decide)
  exact ⟨hnot, Int.not_le.1 fun hwait => absurd hmoves (not_oneLetterPerMove w hwait hnot)⟩

/-- A protester that can leave is next to the exit. -/
theorem CanLeave.nextToExit (h : CanLeave w a p) : NextToExit w a := by
  obtain ⟨hnot, hwait⟩ := h.waits
  obtain ⟨path, w', hcreate, hleads, hmoves⟩ := h
  rw [createPath_eq, List.nil_append, Option.some.injEq, Prod.mk.injEq] at hcreate
  obtain ⟨rfl, -⟩ := hcreate
  have hends := hleads.ends
  by_cases hnil : trail around (60 * 60 + 1) (openSquares w.updateProtestorMaze) (a.x, a.y) = []
  · rw [hnil] at hends
    obtain ⟨hx, hy⟩ := Prod.mk.inj (show (a.x, a.y) = (60, 59) from hends)
    rw [hx, hy] at hnil
    exact ⟨hx, .inl ⟨hy, (trail_exit_iff w).1 hnil⟩⟩
  · obtain ⟨c, hc, hfacing⟩ :=
      (hmoves.path_cases w rfl hwait (fun c hc => letter_ne_nul hc) hnot).resolve_left hnil
    obtain ⟨s, hs, rfl, hopen, hrest⟩ := exists_of_trail_eq_singleton hc
    have hend : letterStep (a.x, a.y) s.2 = (60, 59) := by
      rwa [show trail around _ _ _ = [s.2] from hc] at hends
    obtain ⟨hrange, hdot⟩ := (openSquares_iff w _ _).1 hopen
    rw [around_eq] at hs
    simp only [List.mem_cons, List.not_mem_nil, or_false] at hs
    -- only a step to the left, followed as a step up, can end at the exit
    rcases hs with rfl | rfl | rfl | rfl
    · obtain ⟨hx, hy⟩ := Prod.mk.inj (show (a.x, a.y + 1) = ((60 : Int), (59 : Int)) from hend)
      have hy' : a.y = 58 := by omega
      simp only [hx, hy'] at hrest hdot
      obtain ⟨hleft, hbelow, habove⟩ := (trail_left_iff w).1 hrest
      have hup : a.direction = .up := Option.some.inj hfacing.symm
      exact ⟨hx, .inr ⟨hy', hup, hdot, hleft, hbelow, habove⟩⟩
    · obtain ⟨hx, -⟩ := Prod.mk.inj (show (a.x - 1, a.y) = ((60 : Int), (59 : Int)) from hend)
      simp only at hrange
      omega
    · obtain ⟨-, hy⟩ := Prod.mk.inj (show (a.x, a.y - 1) = ((60 : Int), (59 : Int)) from hend)
      simp only at hrange
      omega
    · obtain ⟨hx, hy⟩ := Prod.mk.inj (show (a.x + 1, a.y) = ((60 : Int), (59 : Int)) from hend)
      simp only at hrange
      omega

/-- The exit is passable. -/
theorem exitSquare_mem_passable (w : StudentWorld) : exitSquare ∈ w.passable := by
  right
  show cell w.updateProtestorMaze 60 59 = some 'Q'
  rw [cell_updateProtestorMaze w (by decide) (by decide)]
  rfl

/-- A protester next to the exit can leave. -/
theorem NextToExit.canLeave (h : NextToExit w a) (hwait : 0 < p.ticksToWaitBetweenMoves) :
    CanLeave w a p := by
  obtain ⟨hx, ⟨hy, hleft⟩ | ⟨hy, hup, hdot, hleft, hbelow, habove⟩⟩ := h
  · refine ⟨_, _, createPath_eq w a.x a.y [], ?_, ?_⟩
    · rw [hx, hy, (trail_exit_iff w).2 hleft]
      exact ⟨fun _ hr => (List.not_mem_nil hr).elim, rfl⟩
    · rw [hx, hy, (trail_exit_iff w).2 hleft]
      exact oneLetterPerMove_nil rfl hwait rfl
  · refine ⟨_, _, createPath_eq w a.x a.y [], ?_, ?_⟩
    · rw [hx, hy, trail_below hdot hleft hbelow habove]
      refine ⟨fun r hr => ?_, rfl⟩
      rw [List.mem_singleton.1 hr]
      exact exitSquare_mem_passable w
    · rw [hx, hy, trail_below hdot hleft hbelow habove]
      exact oneLetterPerMove_singleton (by decide) rfl hwait rfl (congrArg some hup.symm)

/-- Protesters that give up can leave if and only if they wait between moves and are next to the
exit, closed in there except for at most one square. -/
theorem canLeave_iff (w : StudentWorld) (a : Actor) (p : RegularProtestor) :
    CanLeave w a p ↔ NextToExit w a ∧ 0 < p.ticksToWaitBetweenMoves :=
  ⟨fun h => ⟨h.nextToExit, h.waits.2⟩, fun ⟨hnext, hwait⟩ => hnext.canLeave hwait⟩

/-- The field with the top row dug out from column `58` on. -/
def topRow : StudentWorld where
  level := 0
  lives := 3
  score := 0
  tunnelMan := ⟨59, 59, .right, .alive, false, 10, 500, 1, 0⟩
  actors := []
  ground := fun x y => !(decide (58 ≤ x) && y == 59)
  protestorMaze := []
  barrelsLeft := 2
  draws := []
  stray := fun _ _ => false

/-- A protester two squares left of the exit. -/
def nearTheExit : Actor :=
  ⟨58, 59, .right, true, false, .exiting, .regularProtestor ⟨true, 0, [], 8, 3, 0⟩⟩

/-- Two squares left of the exit a protester cannot leave, though the way is clear. -/
theorem topRow_not_canLeave : topRow.ExitReachable nearTheExit.x nearTheExit.y ∧
    ¬ CanLeave topRow nearTheExit ⟨true, 0, [], 8, 3, 0⟩ := by
  constructor
  · have hnext : ((59 : Int), (59 : Int)) ∈ topRow.passable := by
      left
      show cell topRow.updateProtestorMaze 59 59 = some '.'
      rw [cell_updateProtestorMaze topRow (by decide) (by decide)]
      decide
    refine Relation.ReflTransGen.head ⟨?_, hnext⟩ (Relation.ReflTransGen.single
      ⟨?_, exitSquare_mem_passable topRow⟩)
    · unfold Adjacent nearTheExit
      decide
    · unfold Adjacent exitSquare
      decide
  · intro h
    exact absurd h.nextToExit.1 (by decide)

end Coursework.OilField
