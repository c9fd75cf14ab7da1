import Coursework.Maze.Program
import Coursework.OilField.World

/-!
# The way out of the oil field

`update_protestorMaze`, `find_path` and `create_path` of `StudentWorld.cpp`, and what a protester
does with the path: `followExitPath` and the exiting branch of its `doSomething`. The maze is an
array of `63` columns, read and written by `Coursework.Maze.cell` and `Coursework.Maze.setCell`.
A call of `find_path` whose `fuel`, a bound on the depth of the recursion, is too small is `none`.
-/

namespace Coursework.OilField

open Maze

/-- `direction` and `dir_str` of `find_path`. -/
def directions : List (Int × Int × Char) :=
  [(-1, 0, 'N'), (0, -1, 'W'), (1, 0, 'S'), (0, 1, 'E')]

/-- A crumb is taken up again unless the exit was found. -/
def takeUp (maze : List (List Char)) (x y : Int) (found : Bool) : Option (List (List Char)) :=
  if found then some maze else setCell maze x y '.'

/-- The loop of `find_path` over the squares around `(x, y)`, with the search from a square. -/
def tryDirections (search : List (List Char) → Int → Int → List Char → Bool →
      Option (List (List Char) × List Char × Bool)) (x y boundX boundY : Int) :
    List (Int × Int × Char) → List (List Char) → List Char → Bool →
      Option (List (List Char) × List Char × Bool)
  | [], maze, path, found => some (maze, path, found)
  | (dx, dy, letter) :: rest, maze, path, found =>
      let nextX := x + dx
      let nextY := y + dy
      if 0 ≤ nextX ∧ 0 ≤ nextY ∧ nextX < boundX ∧ nextY < boundY then do
        let ch ← cell maze nextX nextY
        if ch = '.' then
          let maze ← setCell maze nextX nextY 'V'
          let (maze, path, found) ← search maze nextX nextY (path ++ [letter]) found
          let maze ← takeUp maze nextX nextY found
          tryDirections search x y boundX boundY rest maze path found
        else if ch = 'Q' then
          tryDirections search x y boundX boundY rest maze
            (path ++ letter :: " Found Exit!\n".toList) true
        else tryDirections search x y boundX boundY rest maze path found
      else tryDirections search x y boundX boundY rest maze path found

/-- `find_path`: the maze, the path and `found` afterwards. -/
def findPath : Nat → List (List Char) → Int → Int → List Char → Bool → (boundX boundY : Int) →
    Option (List (List Char) × List Char × Bool)
  | 0, _, _, _, _, _, _, _ => none
  | fuel + 1, maze, x, y, path, found, boundX, boundY =>
      if found then some (maze, path, found)
      else
        tryDirections (fun maze x y path found => findPath fuel maze x y path found 60 60)
          x y boundX boundY directions maze path found

namespace StudentWorld

/-- The character that `update_protestorMaze` writes for a square of the field. -/
def mazeSquare (w : StudentWorld) (i j : Int) : Char :=
  if w.checkEarth i j || w.blocked i j then 'X' else '.'

/-- `update_protestorMaze`. -/
def updateProtestorMaze (w : StudentWorld) : List (List Char) :=
  (List.range 63).map fun (i : Nat) => (List.range 60).map fun (j : Nat) =>
    if i = 60 ∧ j = 59 then 'Q' else w.mazeSquare i j

/-- `create_path`: the path and the world afterwards. -/
def createPath (w : StudentWorld) (x y : Int) (path : List Char) :
    Option (List Char × StudentWorld) := do
  let (maze, path, _) ← findPath (60 * 60 + 1) w.updateProtestorMaze x y path false 60 60
  some (path, { w with protestorMaze := maze })

end StudentWorld

/-- The direction that `followExitPath` takes a letter for. -/
def letterDirection : Char → Option Direction
  | 'W' => some .left
  | 'E' => some .right
  | 'N' => some .up
  | 'S' => some .down
  | _ => none

/-- `followExitPath`. -/
def Actor.followExitPath (a : Actor) (dir : Char) : Actor :=
  match letterDirection dir with
  | none => a
  | some direction =>
      if a.direction ≠ direction then a.setDirection direction
      else a.moveTo (direction.ahead a.x a.y).1 (direction.ahead a.x a.y).2

/-- `RegularProtestor::tick`. -/
def RegularProtestor.tick (p : RegularProtestor) : RegularProtestor :=
  if p.shoutClock ≠ 0 then { p with shoutClock := p.shoutClock - 1 } else p

/-- A step of a protester that leaves: `front` of the path, `'\x00'` when it is empty, is the letter
that is followed, and `erase(0)` erases every letter from the first one on. -/
def Actor.leave (a : Actor) (p : RegularProtestor) : Actor × RegularProtestor :=
  let p := p.tick
  let dir := p.exitPath.headD '\x00'
  let p := if dir ≠ '\x00' then { p with exitPath := p.exitPath.take 0 } else p
  (a.followExitPath dir, p)

end Coursework.OilField
