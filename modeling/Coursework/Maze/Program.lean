import Mathlib.Data.List.Basic

/-!
# The maze

`canWeFinish` of `recursion.cpp`. The array of strings is a list of rows. A read or
write outside it is `none`, and so is a call whose `fuel`, a bound on the depth of the
recursion, is too small.
-/

namespace Coursework.Maze

/-- The character `maze[r][c]`. -/
def cell (maze : List (List Char)) (r c : Int) : Option Char :=
  if r < 0 ∨ c < 0 then none
  else do
    let row ← maze[r.toNat]?
    row[c.toNat]?

/-- The assignment `maze[r][c] = ch`. -/
def setCell (maze : List (List Char)) (r c : Int) (ch : Char) : Option (List (List Char)) :=
  if r < 0 ∨ c < 0 then none
  else do
    let row ← maze[r.toNat]?
    let _ ← row[c.toNat]?
    some (maze.set r.toNat (row.set c.toNat ch))

/-- The tests of the cells around: each that is open is searched, and the first search that
succeeds ends the tests. -/
def tryCells (search : List (List Char) → Int → Int → Option (Bool × List (List Char))) :
    List (Int × Int) → List (List Char) → Option (Bool × List (List Char))
  | [], maze => some (false, maze)
  | (r, c) :: cells, maze => do
      let ch ← cell maze r c
      if ch = '.' then
        let (found, maze) ← search maze r c
        if found then some (true, maze) else tryCells search cells maze
      else tryCells search cells maze

/-- `canWeFinish`: the returned value and the maze afterwards. -/
def canWeFinish : Nat → List (List Char) → (nRows nCols sr sc er ec : Int) →
    Option (Bool × List (List Char))
  | 0, _, _, _, _, _, _, _ => none
  | fuel + 1, maze, nRows, nCols, sr, sc, er, ec => do
      let maze ← setCell maze sr sc '#'
      if sr = er ∧ sc = ec then some (true, maze)
      else
        tryCells (fun maze r c => canWeFinish fuel maze nRows nCols r c er ec)
          [(sr - 1, sc), (sr + 1, sc), (sr, sc + 1), (sr, sc - 1)] maze

end Coursework.Maze
